/-
# Declared types of a source of namespace blocks

A source of a preamble, declarations without a namespace, and blocks of a
namespace line with its declarations (`BlockSource`) declares exactly what is
written in it, in order (`BlockSource.declaredTypes_text`). Anything else may stand
between the statements that is no statement itself.

The namespaces and the declarations are found in two searches of their own, which
go from statement to statement side by side (`exists_findAll_statement`): a
statement is a find of the one search, and the other goes over it. The find may lie
further up, on blank lines, but behind the statement before it, so that it stays in
its block. What a search has still to find so gets the namespace of the last line
before it (`Attributes`): a declaration gets it, and a namespace line changes it
(`Attributes.member`, `Attributes.line`).

Key definitions: `Member`, `Block`, `BlockSource`, `Attributes`.
Key theorems: `exists_findAll_statement`, `Attributes.member`, `Attributes.line`,
`BlockSource.declaredTypes_text`.
-/
import DocTypes.Proofs.Written
import DocTypes.Source.Header

namespace DocTypes

/-- The namespaces in a text that lies at `offset`, where `lineStart` tells whether
a line starts with the text. -/
def namespacesFrom (offset : Nat) (lineStart : Bool) (s : Text) : List (Nat × Text) :=
  (findAll readNamespace false offset lineStart 0 s).map fun f => (f.1, stripSeparators f.2)

/-- The last of some namespaces. -/
def lastNamespace (statements : List (Nat × Text)) : Text :=
  (statements.getLast?).elim [] (·.2)

/-- Namespaces further down do not count. -/
theorem namespaceAt_append_left {prior later : List (Nat × Text)} {offset : Nat}
    (hlater : ∀ f ∈ later, offset < f.1) :
    namespaceAt (prior ++ later) offset = namespaceAt prior offset := by
  have hl : later.filter (fun f => f.1 ≤ offset) = [] :=
    List.filter_eq_nil_iff.mpr fun f hf => by
      simpa using hlater f hf
  rw [namespaceAt, List.filter_append, hl, List.append_nil, namespaceAt]

/-- Of namespaces further up the last one counts. -/
theorem namespaceAt_append {prior later : List (Nat × Text)} {offset : Nat}
    (hprior : ∀ f ∈ prior, f.1 ≤ offset) (hlater : ∀ f ∈ later, offset < f.1) :
    namespaceAt (prior ++ later) offset = lastNamespace prior := by
  have hp : prior.filter (fun f => f.1 ≤ offset) = prior :=
    List.filter_eq_self.mpr fun f hf => decide_eq_true (hprior f hf)
  rw [namespaceAt_append_left hlater, namespaceAt, hp]
  rfl

namespace Written

/-- The words that begin a statement. -/
def statementWords : List Text := "namespace".toList :: (modifiers ++ declarationWords)

theorem namespaceWord_subset : ["namespace".toList] ⊆ statementWords := fun w hw => by
  rw [List.mem_singleton.mp hw]
  exact List.mem_cons_self

theorem declarationWords_subset : modifiers ++ declarationWords ⊆ statementWords :=
  List.subset_cons_self _ _

/-- A declaration and the text up to the next statement. Of the words that begin a
statement, only the one of a namespace is no name for it. -/
structure Member where
  declaration : Declaration
  name_ne : declaration.name.text ≠ "namespace".toList
  after : Text
  apart : ∀ c ∈ after.head?, isWordChar c = false
  filler : Filler statementWords false after

/-- A namespace line, the text up to the next statement, and the declarations. -/
structure Block where
  line : NamespaceLine
  after : Text
  filler : Filler statementWords false after
  members : List Member

/-- Any text without statements, declarations in no namespace, and blocks. -/
structure BlockSource where
  preamble : Text
  filler : Filler statementWords true preamble
  members : List Member
  blocks : List Block

namespace Member

def text (m : Member) : Text := m.declaration.text ++ m.after

def name (m : Member) : Text := m.declaration.name.text

end Member

namespace Block

def text (b : Block) : Text := b.line.text ++ (b.after ++ b.members.flatMap Member.text)

/-- The full names of what the block declares. -/
def types (b : Block) : List Text :=
  b.members.map fun m => b.line.name.text ++ separator :: m.name

end Block

namespace BlockSource

def text (s : BlockSource) : Text :=
  s.preamble ++ (s.members.flatMap Member.text ++ s.blocks.flatMap Block.text)

/-- The full names of what the source declares. -/
def types (s : BlockSource) : List Text := s.members.map Member.name ++ s.blocks.flatMap Block.types

end BlockSource

/-! ### Both searches, from one statement to the next -/

/-- With any filler in front, and `current` as the last namespace before it, the rest
declares the types. -/
def Attributes (current rest : Text) (types : List Text) : Prop :=
  ∀ (g : Text) (offset : Nat) (lineStart : Bool) (prior : List (Nat × Text)),
    Filler statementWords lineStart g → (∀ f ∈ prior, f.1 ≤ offset) →
    lastNamespace prior = current →
    (findAll readDeclaration false offset lineStart 0 (g ++ rest)).map (fun d =>
      qualified (namespaceAt (prior ++ namespacesFrom offset lineStart (g ++ rest)) d.1) d.2) =
        types

variable {current rest : Text} {types : List Text}

/-- A search goes over a filler and what is behind it, when nothing is read in that. -/
theorem findAll_over {α : Type} {read : Recogniser α} {words : List Text}
    (hread : BeginsBy words read) (hsub : words ⊆ statementWords) {g k x : Text} {lineStart : Bool}
    (hg : Filler statementWords lineStart g) (hk : k ≠ []) (hpasses : Passes read false true k x)
    (offset : Nat) :
    findAll read false offset lineStart 0 (g ++ (k ++ x)) =
      findAll read false (offset + (g ++ k).length) (atLineStart lineStart (g ++ k)) 0 x := by
  have hgaps : Passes read false lineStart g (k ++ x) :=
    (hg.mono hsub).passes hread (hpasses.read_eq_none hk)
  rw [← List.append_assoc, findAll_of_passes (hgaps.append (hpasses.of_lineStart _))]

/-- **A statement behind a filler** is a find of its own search, which starts in front
of its end, and the search for other statements goes over both. -/
theorem exists_findAll_statement {α β : Type} {read : Recogniser α} {other : Recogniser β}
    {words otherWords : List Text} (hread : BeginsBy words read)
    (hother : BeginsBy otherWords other) (hsub : words ⊆ statementWords)
    (hsub' : otherWords ⊆ statementWords) {g k x : Text} {lineStart : Bool}
    (hg : Filler statementWords lineStart g) (hk : k ≠ []) {found : α}
    (hfound : read (k ++ x) = some (found, x)) (hpasses : Passes other false true k x)
    (hends : ∀ lineStart, atLineStart lineStart k = false) (offset : Nat) :
    ∃ start, offset ≤ start ∧ start < offset + (g ++ k).length ∧
      findAll read false offset lineStart 0 (g ++ (k ++ x)) =
        (start, found) :: findAll read false (offset + (g ++ k).length) false 0 x ∧
      findAll other false offset lineStart 0 (g ++ (k ++ x)) =
        findAll other false (offset + (g ++ k).length) false 0 x := by
  have hline : atLineStart lineStart (g ++ k) = false := by rw [atLineStart_append, hends]
  have hlength : 0 < k.length := List.length_pos_iff.mpr hk
  obtain ⟨start, hle, hge, hfinds⟩ := (hg.mono hsub).exists_findAll hread hk hfound offset
  have hover := findAll_over hother hsub' hg hk hpasses offset
  rw [hline] at hfinds hover
  exact ⟨start, hle, by rw [List.length_append]; omega, hfinds, hover⟩

theorem attributes_nil (current : Text) : Attributes current [] [] := by
  intro g offset lineStart prior hg _ _
  have hread := beginsBy_readDeclaration
  have hnone : Passes readDeclaration false lineStart g [] :=
    (hg.mono declarationWords_subset).passes hread (hread.begins (by decide))
  rw [findAll_of_passes hnone]
  rfl

/-- No find of a search is in front of it, so none is in front of a find before. -/
theorem lt_of_mem_namespacesFrom {start offset : Nat} (h : start < offset) (lineStart : Bool)
    (s : Text) : ∀ f ∈ namespacesFrom offset lineStart s, start < f.1 := by
  intro f hf
  obtain ⟨f', hf', rfl⟩ := List.mem_map.mp hf
  exact Nat.lt_of_lt_of_le h (le_of_mem_findAll s offset lineStart 0 f' hf')

/-- A declaration gets the namespace so far. -/
theorem Attributes.member (m : Member) (h : Attributes current rest types) :
    Attributes current (m.text ++ rest) (qualified current m.name :: types) := by
  intro g offset lineStart prior hg hprior hcurrent
  have hafter : ∀ c ∈ (m.after ++ rest).head?, isWordChar c = false := by
    cases ha : m.after with
    | nil =>
      have hends := m.filler.ends
      rw [ha] at hends
      cases hends
    | cons c s =>
      intro d hd
      exact m.apart d (by rw [ha]; exact hd)
  obtain ⟨start, hle, hlt, hdeclarations, hover⟩ :=
    exists_findAll_statement beginsBy_readDeclaration beginsBy_readNamespace
      declarationWords_subset namespaceWord_subset hg m.declaration.text_ne_nil
      (m.declaration.readDeclaration_text hafter)
      (m.declaration.passes_readNamespace m.name_ne hafter true) m.declaration.atLineStart_text
      offset
  have htail := h m.after (offset + (g ++ m.declaration.text).length) false prior m.filler
    (fun f hf => Nat.le_trans (hprior f hf) (Nat.le_add_right _ _)) hcurrent
  have hnamespace := namespaceAt_append (fun f hf => Nat.le_trans (hprior f hf) hle)
    (lt_of_mem_namespacesFrom hlt false (m.after ++ rest))
  rw [Member.text, List.append_assoc, hdeclarations, List.map_cons]
  unfold namespacesFrom at hnamespace htail ⊢
  rw [hover, hnamespace, htail, hcurrent]
  rfl

/-- A namespace line changes the namespace for what follows. -/
theorem Attributes.line (l : NamespaceLine) {after : Text}
    (hfiller : Filler statementWords false after) (h : Attributes l.name.text rest types)
    (current : Text) : Attributes current (l.text ++ (after ++ rest)) types := by
  intro g offset lineStart prior hg hprior hcurrent
  obtain ⟨start, hle, hlt, hnamespaces, hover⟩ :=
    exists_findAll_statement beginsBy_readNamespace beginsBy_readDeclaration
      namespaceWord_subset declarationWords_subset hg l.text_ne_nil
      (l.readNamespace_text (after ++ rest)) (l.passes_readDeclaration true _) l.atLineStart_text
      offset
  have hprior' : ∀ f ∈ prior ++ [(start, l.name.text)], f.1 ≤ offset + (g ++ l.text).length := by
    intro f hf
    rcases List.mem_append.mp hf with hf | hf
    · exact Nat.le_trans (hprior f hf) (Nat.le_add_right _ _)
    · rw [List.mem_singleton.mp hf]
      exact Nat.le_of_lt hlt
  have hlast : lastNamespace (prior ++ [(start, l.name.text)]) = l.name.text := by
    rw [lastNamespace, List.getLast?_append]
    rfl
  have htail := h after _ false _ hfiller hprior' hlast
  unfold namespacesFrom at htail ⊢
  rw [hover, hnamespaces, List.map_cons, l.name.stripSeparators_text]
  rw [List.append_assoc] at htail
  exact htail

theorem Attributes.members (h : Attributes current rest types) : ∀ ms : List Member,
    Attributes current (ms.flatMap Member.text ++ rest)
      (ms.map (fun m => qualified current m.name) ++ types)
  | [] => h
  | m :: ms => by
    rw [List.flatMap_cons, List.append_assoc]
    exact (h.members ms).member m

theorem qualified_name (l : NamespaceLine) (name : Text) :
    qualified l.name.text name = l.name.text ++ separator :: name :=
  if_neg l.name.text_ne_nil

/-- **Blocks declare their types in their own namespaces**, whatever the namespace
before them. -/
theorem attributes_blocks : ∀ (bs : List Block) (current : Text),
    Attributes current (bs.flatMap Block.text) (bs.flatMap Block.types)
  | [], current => attributes_nil current
  | b :: bs, current => by
    have hmembers := (attributes_blocks bs b.line.name.text).members b.members
    simp only [qualified_name] at hmembers
    have hblock := hmembers.line b.line b.filler current
    rw [List.flatMap_cons, List.flatMap_cons, Block.text, List.append_assoc, List.append_assoc]
    exact hblock

/-- **A source of namespace blocks declares what is written in it**: the declared
names of every block behind its namespace, in order, and those before the first
block as they are. -/
theorem BlockSource.declaredTypes_text (s : BlockSource) : declaredTypes s.text = s.types := by
  have hattributes := (attributes_blocks s.blocks []).members s.members
  have hname : ∀ name, qualified [] name = name := fun name => if_pos rfl
  simp only [hname] at hattributes
  exact hattributes s.preamble 0 true [] s.filler (fun f hf => by cases hf) rfl

/-! ### One source -/

/-- A class before a final enum with its words on several lines, in two namespaces. -/
def shopSource : BlockSource where
  preamble := "<?php\n// namespace of class files\n\n".toList
  filler := by decide +kernel
  members := []
  blocks := [
    { line := ⟨⟨["App".toList, "Models".toList], by decide, by decide⟩, false⟩
      after := " // models\nclassic();\n\n".toList
      filler := by decide +kernel
      members := [
        { declaration :=
            { indent := [], blank := List.forall_mem_nil _, modifiers := [], word := "class".toList,
              mem := by decide, gap := Gap.space, name := ⟨"User".toList, by decide⟩ }
          name_ne := by decide
          after := " \x7b\x7d\n".toList
          apart := fun c hc => by cases hc; decide
          filler := by decide +kernel }] },
    { line := ⟨⟨["Shop".toList], by decide, by decide⟩, true⟩
      after := "\n".toList
      filler := by decide +kernel
      members := [
        { declaration :=
            { indent := "  ".toList, blank := List.all_eq_true.mp (by decide),
              modifiers := [⟨"final".toList, by decide, "\n\t".toList, by decide,
                List.all_eq_true.mp (by decide)⟩],
              word := "enum".toList, mem := by decide, gap := Gap.space,
              name := ⟨"State".toList, by decide⟩ }
          name_ne := by decide
          after := "\n\x7d\n".toList
          apart := fun c hc => by cases hc; decide
          filler := by decide +kernel }] }]

example : shopSource.text = "<?php\n// namespace of class files\n\nnamespace App\\Models; // models
classic();\n\nclass User \x7b\x7d\nnamespace Shop \x7b\n  final\n\tenum State\n\x7d\n".toList := by
  decide +kernel

example : declaredTypes shopSource.text = ["App\\Models\\User".toList, "Shop\\State".toList] := by
  decide +kernel

end Written
end DocTypes
