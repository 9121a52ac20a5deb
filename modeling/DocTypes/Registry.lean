/-
# Registries

A registry answers whether a type of a given name is known. It knows nothing, or
the names of a set, or those declared in sources, or what a probe says; and any
registry may have a cache in front of it, which keeps the answers that it got.
The failure of a probe is not an answer and is not kept.

A set of type names answers by a look-up key: the name without separators in front
and, unless letter case counts, in lower case. Each key is kept once.

A source index is a set of type names that grows by what is declared in source
texts and files, and remembers which files it has read. It is built from files
and directories, in the order in which they are given; a path that no entry can
have ends the scan, with the index and the events up to there.

A registry changes when it is asked: caches fill, and a probe remembers the
names it was asked, by which its next answer may go. What stands behind all
caches is the core of a registry (`Registry.core`); names are registered there
(`Registry.atCore`).

Key definitions: `NameSet`, `NameSet.key`, `NameSet.insert`, `NameSet.has`,
`SourceIndex`, `SourceIndex.addText`, `SourceIndex.addFile`, `SourceIndex.addPath`,
`SourceIndex.build`, `Registry`, `Registry.knows`, `Registry.atCore`,
`Registry.clear`, `Registry.layers`.
Key theorems: `NameSet.has_insert`, `NameSet.has_insertAll`,
`NameSet.nodup_keys_insertAll`.
-/
import DocTypes.Files.Search
import DocTypes.Source.Header
import DocTypes.Text.Utf8

namespace DocTypes

/-! ### Sets of names -/

/-- The key under which a name is looked up. -/
def lookupKey (caseSensitive : Bool) (name : Text) : Text :=
  let bare := name.trimStart (· == separator)
  if caseSensitive then bare else bare.lower

/-- A set of type names, by their look-up keys. -/
structure NameSet where
  caseSensitive : Bool
  keys : List Text := []
  deriving DecidableEq

namespace NameSet

/-- The key of a name in this set. -/
def key (n : NameSet) (name : Text) : Text := lookupKey n.caseSensitive name

/-- Adds a name. -/
def insert (n : NameSet) (name : Text) : NameSet :=
  if n.key name ∈ n.keys then n else { n with keys := n.keys ++ [n.key name] }

/-- Adds names in turn. -/
def insertAll (n : NameSet) (names : List Text) : NameSet := names.foldl insert n

/-- Whether a name is in the set. -/
def has (n : NameSet) (name : Text) : Bool := decide (n.key name ∈ n.keys)

/-- The number of different keys. -/
def size (n : NameSet) : Nat := n.keys.length

theorem caseSensitive_insert (n : NameSet) (name : Text) :
    (n.insert name).caseSensitive = n.caseSensitive := by
  unfold insert; split <;> rfl

theorem caseSensitive_insertAll : ∀ (names : List Text) (n : NameSet),
    (n.insertAll names).caseSensitive = n.caseSensitive
  | [], _ => rfl
  | name :: names, n =>
    (caseSensitive_insertAll names (n.insert name)).trans (caseSensitive_insert n name)

theorem mem_keys_insert (n : NameSet) (name x : Text) :
    x ∈ (n.insert name).keys ↔ x ∈ n.keys ∨ x = n.key name := by
  unfold insert
  split
  · next h => exact ⟨Or.inl, fun hx => hx.elim id fun e => e ▸ h⟩
  · simp

/-- A name is in the set once a name with its key has been added. -/
theorem has_insert (n : NameSet) (name x : Text) :
    (n.insert name).has x = true ↔ n.has x = true ∨ n.key x = n.key name := by
  have hk : (n.insert name).key x = n.key x := by simp only [key, caseSensitive_insert]
  unfold has
  rw [decide_eq_true_eq, decide_eq_true_eq, hk]
  exact mem_keys_insert n name (n.key x)

theorem mem_keys_insertAll (x : Text) : ∀ (names : List Text) (n : NameSet),
    x ∈ (n.insertAll names).keys ↔ x ∈ n.keys ∨ ∃ name ∈ names, x = n.key name
  | [], n => by simp [insertAll]
  | name :: names, n => by
    have hk : ∀ y, (n.insert name).key y = n.key y := fun y => by
      simp only [key, caseSensitive_insert]
    have hrec := mem_keys_insertAll x names (n.insert name)
    rw [mem_keys_insert] at hrec
    simp only [hk] at hrec
    simpa [insertAll, or_assoc] using hrec

/-- A name is in the set once names are added in turn, one of them with its key. -/
theorem has_insertAll (x : Text) (names : List Text) (n : NameSet) :
    (n.insertAll names).has x = true ↔ n.has x = true ∨ ∃ name ∈ names, n.key x = n.key name := by
  have hk : (n.insertAll names).key x = n.key x := by simp only [key, caseSensitive_insertAll]
  unfold has
  rw [decide_eq_true_eq, decide_eq_true_eq, hk]
  exact mem_keys_insertAll (n.key x) names n

/-- Each key stands once. -/
theorem nodup_keys_insert {n : NameSet} (h : n.keys.Nodup) (name : Text) :
    (n.insert name).keys.Nodup := by
  unfold insert
  split
  · exact h
  · next hn =>
    refine List.nodup_append.mpr ⟨h, by simp, fun a ha b hb => ?_⟩
    rw [List.mem_singleton.mp hb]
    rintro rfl
    exact hn ha

theorem nodup_keys_insertAll : ∀ (names : List Text) {n : NameSet}, n.keys.Nodup →
    (n.insertAll names).keys.Nodup
  | [], _, h => h
  | name :: names, _, h => nodup_keys_insertAll names (nodup_keys_insert h name)

end NameSet

/-! ### Names declared in sources -/

/-- The types declared in some sources. -/
structure SourceIndex where
  names : NameSet
  /-- The files that were read, in order and with repeats. -/
  scanned : List Path := []
  deriving DecidableEq

namespace SourceIndex

/-- Adds a name directly. -/
def register (x : SourceIndex) (name : Text) : SourceIndex :=
  { x with names := x.names.insert name }

/-- Adds what a text declares. -/
def addDeclared (x : SourceIndex) (source : Text) : SourceIndex :=
  { x with names := x.names.insertAll (declaredTypes source) }

/-- Adds a source text, and answers the number of its declarations. -/
def addText (x : SourceIndex) (source : Text) : Nat × List Event × SourceIndex :=
  let count := (declaredTypes source).length
  (count, [.scannedText count], x.addDeclared source)

/-- Adds a file, and answers the number of its declarations: none for a file that
cannot be read, which is passed over. -/
def addFile (x : SourceIndex) (tree : Tree) (path : Path) :
    Except ScanFault Nat × List Event × SourceIndex :=
  match tree.read path with
  | .error .holdsNull => (.error (.badPath path .holdsNull), [], x)
  | .error fault => (.ok 0, [.unreadable path fault], x)
  | .ok bytes =>
    let source := fileText bytes
    let count := (declaredTypes source).length
    (.ok count, [.scannedFile count path],
      { x.addDeclared source with scanned := x.scanned ++ [path] })

/-- Adds files in turn. -/
def addFiles (x : SourceIndex) (tree : Tree) :
    List Path → Except ScanFault Unit × List Event × SourceIndex
  | [] => (.ok (), [], x)
  | path :: paths =>
    match x.addFile tree path with
    | (.error fault, events, x') => (.error fault, events, x')
    | (.ok _, events, x') =>
      let (outcome, more, x'') := x'.addFiles tree paths
      (outcome, events ++ more, x'')

/-- Adds the files that a path stands for. -/
def addPath (x : SourceIndex) (tree : Tree) (search? : Option Search) (path : Path) :
    Except ScanFault Unit × List Event × SourceIndex :=
  match tree.sourceFiles search? path with
  | .ok (some files) => x.addFiles tree files
  | .ok none => (.ok (), [.noSuchPath path], x)
  | .error fault => (.error fault, [], x)

/-- Adds the files that some paths stand for, in turn. -/
def addPaths (x : SourceIndex) (tree : Tree) (search? : Option Search) :
    List Path → Except ScanFault Unit × List Event × SourceIndex
  | [] => (.ok (), [], x)
  | path :: paths =>
    match x.addPath tree search? path with
    | (.error fault, events, x') => (.error fault, events, x')
    | (.ok (), events, x') =>
      let (outcome, more, x'') := x'.addPaths tree search? paths
      (outcome, events ++ more, x'')

/-- The search at any depth for the file names with a suffix. The suffix may be a
pattern too; there is no search when that is malformed. -/
def suffixSearch? (suffix : Text) : Option Search := Search.atAnyDepth? ('*' :: suffix)

/-- The index of the files that some paths stand for, where directories give the
files with the suffix. -/
def build (tree : Tree) (paths : List Path) (suffix : Text) (caseSensitive : Bool) :
    Except ScanFault Unit × List Event × SourceIndex :=
  (⟨⟨caseSensitive, []⟩, []⟩ : SourceIndex).addPaths tree (suffixSearch? suffix) paths

end SourceIndex

/-! ### Registries -/

/-- A function that says whether a name is known, or fails. -/
abbrev Probe := Text → Except Fault Bool

/-- Answers whether a type of a given name is known. -/
inductive Registry where
  /-- Knows nothing. -/
  | empty
  /-- Knows the names of a set. -/
  | names (set : NameSet)
  /-- Knows what a probe says; `calls` are the names it was asked, on which its
  answers may depend. -/
  | probe (ask : (calls : List Text) → Probe) (calls : List Text)
  /-- Knows what some sources declare. -/
  | sources (index : SourceIndex)
  /-- Keeps the answers of another registry. -/
  | cached (answers : Table Text Bool) (inner : Registry)
  deriving Inhabited

/-- What a layer of a registry is. -/
inductive Layer where
  | empty
  | names
  | probe
  | sources
  | cache
  deriving DecidableEq

namespace Registry

/-- A registry of a set of names. -/
def ofNames (names : List Text) (caseSensitive : Bool) : Registry :=
  .names ((⟨caseSensitive, []⟩ : NameSet).insertAll names)

/-- A registry that asks a probe whose answers depend on nothing but the name. -/
def ofProbe (ask : Probe) : Registry := .probe (fun _ => ask) []

/-- A registry with an empty cache in front. -/
def withCache (r : Registry) : Registry := .cached .empty r

/-- Whether a cache is the outermost layer. -/
def isCached : Registry → Bool
  | cached _ _ => true
  | _ => false

/-- The registry for what is given: a probe comes before names, and without
either nothing is known. -/
def create (names? : Option (List Text)) (probe? : Option Probe) (cache : Bool) : Registry :=
  let plain :=
    match probe?, names? with
    | some ask, _ => ofProbe ask
    | none, some known => ofNames known false
    | none, none => empty
  if cache then plain.withCache else plain

/-- Asks whether a name is known. A cache passes a name on once and keeps the
answer, unless the registry behind it fails. -/
def knows : Registry → Text → Except Fault Bool × Registry
  | empty, _ => (.ok false, empty)
  | names set, name => (.ok (set.has name), names set)
  | probe ask calls, name => (ask calls name, probe ask (calls ++ [name]))
  | sources index, name => (.ok (index.names.has name), sources index)
  | cached answers inner, name =>
    match answers.find? name with
    | some known => (.ok known, cached answers inner)
    | none =>
      match inner.knows name with
      | (.ok known, inner') => (.ok known, cached (answers.put name known) inner')
      | (.error fault, inner') => (.error fault, cached answers inner')

/-- Forgets the answers of the outermost cache. -/
def clear : Registry → Registry
  | cached _ inner => cached .empty inner
  | r => r

/-- The layers from the outermost to the core. -/
def layers : Registry → List Layer
  | empty => [.empty]
  | names _ => [.names]
  | probe _ _ => [.probe]
  | sources _ => [.sources]
  | cached _ inner => .cache :: inner.layers

/-- What stands behind all caches. -/
def core : Registry → Registry
  | cached _ inner => inner.core
  | r => r

/-- Acts on what stands behind all caches; the caches stay as they are. -/
def atCore {α : Type} (act : Registry → α × Registry) : Registry → α × Registry
  | cached answers inner =>
    let (a, inner') := inner.atCore act
    (a, cached answers inner')
  | r => act r

/-- The names that a probe was asked, in order. -/
def calls (r : Registry) : List Text :=
  match r.core with
  | probe _ calls => calls
  | _ => []

/-- The set of names that a registry of names or sources holds. -/
def nameSet? (r : Registry) : Option NameSet :=
  match r.core with
  | names set => some set
  | sources index => some index.names
  | _ => none

/-- The files that a registry of sources has read. -/
def scanned (r : Registry) : List Path :=
  match r.core with
  | sources index => index.scanned
  | _ => []

/-- Registers a name. -/
def register (r : Registry) (name : Text) : Registry :=
  (r.atCore fun
    | names set => ((), names (set.insert name))
    | sources index => ((), sources (index.register name))
    | other => ((), other)).2

/-- Adds a source text, and answers the number of its declarations. -/
def addText (r : Registry) (source : Text) : (Nat × List Event) × Registry :=
  r.atCore fun
    | sources index =>
      let (count, events, index') := index.addText source
      ((count, events), sources index')
    | other => ((0, []), other)

/-- Adds a file, and answers the number of its declarations. -/
def addFile (r : Registry) (tree : Tree) (path : Path) :
    (Except ScanFault Nat × List Event) × Registry :=
  r.atCore fun
    | sources index =>
      let (count, events, index') := index.addFile tree path
      ((count, events), sources index')
    | other => ((.ok 0, []), other)

end Registry

end DocTypes
