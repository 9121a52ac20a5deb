/-
# Blocks of the global namespace

A source may be written in braced blocks, of a namespace or, without a name, of the global one
(`BracedSource`). The line that opens a block without a name is no namespace statement: a
namespace has a name where it is read (`readNamespace_unnamedLine`). So the block begins
nothing, and its types are declared in the namespace of the last block with a name before it
(`declaredFrom`).

What is declared is what was written just when no block without a name that declares types
stands behind one with a name (`declaredFrom_eq_iff`).

Key definitions: `BracedBlock`, `BracedSource`, `declaredFrom`.
Key theorems: `Attributes.unnamed`, `attributes_braced`, `declaredFrom_eq_iff`.
-/
import DocTypes.Proofs.Blocks
import DocTypes.Source.Header

namespace DocTypes
namespace Written

/-- The line that opens a block of the global namespace. -/
def unnamedLine : Text := "namespace".toList ++ (Gap.space.text ++ [groupOpener])

/-- A block in braces: the line that opens it, with the name of its namespace if it has one,
the declarations in it, and the brace that closes it with any text up to the next block. -/
structure BracedBlock where
  name? : Option NestedName
  after : Text
  filler : Filler statementWords false after
  members : List Member
  closing : Text
  closes : groupCloser ∈ closing
  trailing : Filler statementWords true closing

/-- Any text without statements, and blocks. -/
structure BracedSource where
  preamble : Text
  filler : Filler statementWords true preamble
  blocks : List BracedBlock

namespace BracedBlock

variable (b : BracedBlock)

/-- The line that opens the block. -/
def line : Text :=
  match b.name? with
  | some name => (⟨name, true⟩ : NamespaceLine).text
  | none => unnamedLine

def text : Text := b.line ++ (b.after ++ (b.members.flatMap Member.text ++ b.closing))

/-- The full names of what is written in the block: behind its namespace, or as they are. -/
def types : List Text :=
  match b.name? with
  | some name => b.members.map fun m => name.text ++ separator :: m.name
  | none => b.members.map Member.name

end BracedBlock

namespace BracedSource

variable (s : BracedSource)

def text : Text := s.preamble ++ s.blocks.flatMap BracedBlock.text

/-- The full names of what is written in the source. -/
def types : List Text := s.blocks.flatMap BracedBlock.types

end BracedSource

/-- What blocks declare behind the namespace `current`: each one in its own namespace or,
without a name, in the one before it. -/
def declaredFrom (current : Text) : List BracedBlock → List Text
  | [] => []
  | b :: bs =>
    let inner := b.name?.elim current NestedName.text
    (b.members.map fun m => qualified inner m.name) ++ declaredFrom inner bs

/-! ### Lines without a name -/

theorem unnamedLine_append (x : Text) : unnamedLine ++ x =
    "namespace".toList ++ (Gap.space.text ++ (groupOpener :: x)) := by
  have assoc : ∀ w g : Text, w ++ (g ++ [groupOpener]) ++ x = w ++ (g ++ (groupOpener :: x)) := by
    intro w g
    simp only [List.append_assoc, List.singleton_append]
  exact assoc _ _

/-- No namespace is read where the name is missing. -/
theorem readNamespace_unnamedLine (x : Text) : readNamespace (unnamedLine ++ x) = none := by
  have hwords : PrefixFree ["namespace".toList] := by decide
  have hblank : ∀ c ∈ (groupOpener :: x).head?, isBlank c = false := fun c hc => by
    cases hc
    decide
  have hname : isNamespaceChar groupOpener = false := by decide
  rw [readNamespace, unnamedLine_append, NamespaceLine.isName_namespace.dropWhile_isBlank,
    afterSpacedWord?_append hwords (List.mem_singleton_self _) Gap.space hblank, Option.bind_some]
  simp [namespaceName?, hname]

theorem readDeclaration_unnamedLine (x : Text) : readDeclaration (unnamedLine ++ x) = none := by
  rw [unnamedLine_append]
  exact beginsBy_readDeclaration.read_name NamespaceLine.isName_namespace
    (Gap.space.head?_append _) (by decide)

variable {current rest : Text} {types : List Text}

/-- **A line without a name leaves the namespace** as it is for what follows. -/
theorem Attributes.unnamed {after : Text} (hfiller : Filler statementWords false after)
    (h : Attributes current rest types) :
    Attributes current (unnamedLine ++ (after ++ rest)) types := by
  intro g offset lineStart prior hg hprior hcurrent
  have hne : unnamedLine ≠ [] := by decide
  have hline : '\n' ∉ unnamedLine.dropLast := by decide
  have hends : atLineStart lineStart (g ++ unnamedLine) = false := by
    rw [atLineStart_append]
    exact atLineStart_eq_false hne (by decide)
  have hdeclarations := findAll_over beginsBy_readDeclaration declarationWords_subset hg hne
    (passes_line hline fun _ => readDeclaration_unnamedLine (after ++ rest)) offset
  have hnamespaces := findAll_over beginsBy_readNamespace namespaceWord_subset hg hne
    (passes_line hline fun _ => readNamespace_unnamedLine (after ++ rest)) offset
  rw [hends] at hdeclarations hnamespaces
  have htail := h after (offset + (g ++ unnamedLine).length) false prior hfiller
    (fun f hf => Nat.le_trans (hprior f hf) (Nat.le_add_right _ _)) hcurrent
  unfold namespacesFrom at htail ⊢
  rw [hdeclarations, hnamespaces]
  exact htail

/-- So does text that is no statement. -/
theorem Attributes.filler {k : Text} (hk : Filler statementWords true k)
    (h : Attributes current rest types) : Attributes current (k ++ rest) types := by
  intro g offset lineStart prior hg hprior hcurrent
  have hnames : ∀ w ∈ statementWords, IsName w := by decide
  rw [← List.append_assoc]
  exact h (g ++ k) offset lineStart prior (hg.append hnames hk) hprior hcurrent

/-- **Blocks in braces declare their types** in the last namespace with a name. -/
theorem attributes_braced : ∀ (bs : List BracedBlock) (current : Text),
    Attributes current (bs.flatMap BracedBlock.text) (declaredFrom current bs)
  | [], current => attributes_nil current
  | b :: bs, current => by
    rw [List.flatMap_cons, BracedBlock.text]
    simp only [List.append_assoc]
    obtain ⟨name?, after, hafter, members, closing, -, hclosing⟩ := b
    cases name? with
    | some name =>
      have hmembers := ((attributes_braced bs name.text).filler hclosing).members members
      exact hmembers.line ⟨name, true⟩ hafter current
    | none =>
      have hmembers := ((attributes_braced bs current).filler hclosing).members members
      exact hmembers.unnamed hafter

/-! ### What is written -/

/-- Behind a namespace, types are not declared as they are, unless there are none. -/
theorem map_qualified_eq_iff {current : Text} (h : current ≠ []) (ms : List Member) :
    (ms.map fun m => qualified current m.name) = ms.map Member.name ↔ ms = [] := by
  cases ms with
  | nil => simp
  | cons m ms =>
    refine iff_of_false (fun heq => ?_) (List.cons_ne_nil m ms)
    have hhead : qualified current m.name = m.name := (List.cons.inj heq).1
    have hlength := congrArg List.length hhead
    rw [qualified, if_neg h, List.length_append, List.length_cons] at hlength
    omega

/-- The types of a block are declared as they are written just when the block has a name, or
no types, or no namespace before it. -/
theorem declared_eq_types_iff (b : BracedBlock) (current : Text) :
    (b.members.map fun m => qualified (b.name?.elim current NestedName.text) m.name) = b.types ↔
      (current ≠ [] → b.name? = none → b.members = []) := by
  cases hname : b.name? with
  | some name =>
    have hqualified : ∀ m : Member, qualified name.text m.name = name.text ++ separator :: m.name :=
      fun m => if_neg name.text_ne_nil
    simp [BracedBlock.types, hname, hqualified]
  | none =>
    by_cases hc : current = []
    · simp [BracedBlock.types, hname, hc, qualified]
    · simpa [BracedBlock.types, hname, hc] using map_qualified_eq_iff hc b.members

/-- **What is written is declared** just when no block without a name that has types comes
behind a namespace. -/
theorem declaredFrom_eq_iff : ∀ (bs : List BracedBlock) (current : Text),
    declaredFrom current bs = bs.flatMap BracedBlock.types ↔
      (current ≠ [] → ∀ b ∈ bs, b.name? = none → b.members = []) ∧
        bs.Pairwise fun a b => a.name? ≠ none → b.name? = none → b.members = []
  | [], current => by simp [declaredFrom]
  | b :: bs, current => by
    let inner := b.name?.elim current NestedName.text
    have hhere := declared_eq_types_iff b current
    have hbehind := declaredFrom_eq_iff bs inner
    have hlength : (b.members.map fun m => qualified inner m.name).length = b.types.length := by
      unfold BracedBlock.types
      cases b.name? <;> simp
    have hsplit : declaredFrom current (b :: bs) = (b :: bs).flatMap BracedBlock.types ↔
        (b.members.map fun m => qualified inner m.name) = b.types ∧
          declaredFrom inner bs = bs.flatMap BracedBlock.types := by
      rw [declaredFrom, List.flatMap_cons]
      exact ⟨fun h => List.append_inj h hlength, fun h => congrArg₂ _ h.1 h.2⟩
    rw [hsplit, hhere, hbehind, List.pairwise_cons]
    cases hname : b.name? with
    | some name =>
      have hinner : inner ≠ [] := by
        have h : inner = name.text := by simp only [inner, hname, Option.elim_some]
        exact h ▸ name.text_ne_nil
      simp only [List.forall_mem_cons, hname, hinner, ne_eq, not_false_eq_true, forall_const,
        reduceCtorEq, false_implies, true_and]
      constructor
      · rintro ⟨-, hall, hpairs⟩
        exact ⟨fun _ => hall, hall, hpairs⟩
      · rintro ⟨-, hall, hpairs⟩
        exact ⟨fun _ => trivial, hall, hpairs⟩
    | none =>
      have hinner : inner = current := by simp only [inner, hname, Option.elim_none]
      simp only [List.forall_mem_cons, hname, hinner, ne_eq, not_true, false_implies, implies_true,
        true_and, forall_const]
      rw [imp_and, and_assoc]

namespace BracedSource

/-- **A source of blocks in braces** declares its types in the last namespace with a name before
them. This is where they are written just when no global block with types comes behind a
namespace. -/
theorem declaredTypes_blocks (s : BracedSource) :
    declaredTypes s.text = declaredFrom [] s.blocks ∧
      (declaredTypes s.text = s.types ↔
        s.blocks.Pairwise fun a b => a.name? ≠ none → b.name? = none → b.members = []) := by
  have hdeclared : declaredTypes s.text = declaredFrom [] s.blocks :=
    attributes_braced s.blocks [] s.preamble 0 true [] s.filler (fun f hf => by cases hf) rfl
  refine ⟨hdeclared, ?_⟩
  rw [hdeclared, types, declaredFrom_eq_iff]
  simp

theorem classWord_mem : "class".toList ∈ declarationWords := by decide

theorem noIndent_blank : ∀ c ∈ ([] : Text), isBlank c = true := List.forall_mem_nil _

/-- What stands behind the name of a class without anything in its body. -/
def emptyBody : Text := [' ', groupOpener, groupCloser, '\n']

theorem emptyBody_apart : ∀ c ∈ emptyBody.head?, isWordChar c = false := fun c hc => by
  cases hc
  decide

/-- A class with an empty body. -/
def emptyClass (name : PlainName) (h : name.text ≠ "namespace".toList) : Member where
  declaration :=
    { indent := [], blank := noIndent_blank, modifiers := [], word := "class".toList,
      mem := classWord_mem, gap := Gap.space, name := name }
  name_ne := h
  after := emptyBody
  apart := emptyBody_apart
  filler := by decide +kernel

/-- A block with one declaration. -/
def blockOf (name? : Option NestedName) (m : Member) : BracedBlock where
  name? := name?
  after := ['\n']
  filler := by decide +kernel
  members := [m]
  closing := [groupCloser, '\n']
  closes := List.mem_cons_self
  trailing := by decide +kernel

/-- A class in a namespace before a global one. -/
def mixedSource : BracedSource where
  preamble := []
  filler := by decide +kernel
  blocks :=
    [blockOf (some ⟨["Blog".toList], by decide, by decide⟩)
      (emptyClass ⟨"Entry".toList, by decide⟩ (by decide)),
     blockOf none (emptyClass ⟨"Helper".toList, by decide⟩ (by decide))]

/-- The global class is declared in the namespace of the block before. -/
theorem declaredTypes_mixedSource :
    mixedSource.text = "namespace Blog \x7b\nclass Entry \x7b\x7d\n\x7d
namespace \x7b\nclass Helper \x7b\x7d\n\x7d\n".toList ∧
      mixedSource.types = ["Blog\\Entry".toList, "Helper".toList] ∧
      declaredTypes mixedSource.text = ["Blog\\Entry".toList, "Blog\\Helper".toList] ∧
      declaredTypes mixedSource.text ≠ mixedSource.types := by
  decide +kernel

end BracedSource
end Written
end DocTypes
