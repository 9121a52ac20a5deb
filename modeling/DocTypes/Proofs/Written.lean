/-
# Statements as they are written

A namespace statement and a type declaration with everything that may vary in
their writing: the blanks between the words, the modifiers, how the statement
ends. Reading what is written gives what it declares, whatever follows
(`NamespaceLine.readNamespace_text`, `Declaration.readDeclaration_text`), and no
statement of the one kind is read in one of the other
(`NamespaceLine.passes_readDeclaration`, `Declaration.passes_readNamespace`).

Key definitions: `Gap`, `NamespaceLine`, `Declaration`.
Key theorems: `Declaration.readDeclaration_text`,
`Declaration.passes_readNamespace`.
-/
import DocTypes.Proofs.Lines

namespace DocTypes
namespace Written

/-! ### Words and gaps -/

/-- The blanks between two words: one or more. -/
structure Gap where
  text : Text
  ne_nil : text ≠ []
  blank : ∀ c ∈ text, isBlank c = true

namespace Gap

variable (b : Gap)

/-- Between a word and what follows there is no character of a name. -/
theorem head?_append (x : Text) : ∀ c ∈ (b.text ++ x).head?, isWordChar c = false := by
  obtain ⟨d, ds, hd⟩ := List.exists_cons_of_ne_nil b.ne_nil
  intro c hc
  rw [hd] at hc
  cases hc
  exact isWordChar_of_isBlank (b.blank d (by rw [hd]; exact List.mem_cons_self))

theorem afterBlanks?_append {x : Text} (hx : ∀ c ∈ x.head?, isBlank c = false) :
    (b.text ++ x).afterBlanks? = some x := by
  obtain ⟨d, ds, hd⟩ := List.exists_cons_of_ne_nil b.ne_nil
  have hb : isBlank d = true := b.blank d (by rw [hd]; exact List.mem_cons_self)
  rw [afterBlanks?_eq, hd, List.cons_append, List.head?_cons, Option.any_some, if_pos hb,
    ← List.cons_append, ← hd, List.dropWhile_append_of_pos b.blank]
  cases x with
  | nil => rfl
  | cons c x => rw [List.dropWhile_cons_of_neg (by simp [hx c rfl])]

end Gap

/-- No word of the list begins another one. -/
def PrefixFree (words : List Text) : Prop := ∀ w ∈ words, ∀ v ∈ words, w <+: v → w = v

instance (words : List Text) : Decidable (PrefixFree words) := List.decidableBAll _ words

variable {words : List Text}

/-- A word of a list without prefixes is read as a whole. -/
theorem afterAnyWord?_append (hwords : PrefixFree words) {w : Text} (hw : w ∈ words) (r : Text) :
    afterAnyWord? words (w ++ r) = some r := by
  have hall : ∀ v ∈ words, ∀ z, Text.afterWord? v (w ++ r) = some z → z = r := by
    intro v hv z hz
    rw [afterWord?_eq_some_iff] at hz
    rcases List.append_eq_append_iff.mp hz with ⟨a, ha, hra⟩ | ⟨a, ha, hza⟩
    · obtain rfl := hwords w hw v hv ⟨a, ha.symm⟩
      exact (List.append_cancel_left hz).symm
    · obtain rfl := hwords v hv w hw ⟨a, ha.symm⟩
      exact (List.append_cancel_left hz).symm
  cases h : afterAnyWord? words (w ++ r) with
  | none =>
    rw [afterAnyWord?, List.findSome?_eq_none_iff] at h
    have hn := h w hw
    rw [afterWord?_eq_some_iff.mpr rfl] at hn
    cases hn
  | some z =>
    obtain ⟨v, hv, hz⟩ := List.exists_of_findSome?_eq_some h
    rw [hall v hv z hz]

/-- The same for a word and the gap after it. -/
theorem afterSpacedWord?_append (hwords : PrefixFree words) {w x : Text} (hw : w ∈ words)
    (b : Gap) (hx : ∀ c ∈ x.head?, isBlank c = false) :
    afterSpacedWord? words (w ++ (b.text ++ x)) = some x := by
  rw [afterSpacedWord?, afterAnyWord?_append hwords hw]
  exact b.afterBlanks?_append hx

/-- Another name is read as none of the words. -/
theorem afterSpacedWord?_eq_none (hwords : ∀ w ∈ words, IsName w) {n r : Text} (hn : IsName n)
    (hr : ∀ c ∈ r.head?, isWordChar c = false) (hnot : n ∉ words) :
    afterSpacedWord? words (n ++ r) = none := by
  have hb := beginsWith_name hwords hn hr hnot
  rw [Option.eq_none_iff_forall_ne_some]
  intro x hx
  rw [← hn.dropWhile_isBlank r] at hx
  rw [beginsWith_of_afterSpacedWord? hx] at hb
  cases hb

/-- None of the words is read where all of them begin with other characters. -/
theorem afterAnyWord?_eq_none {s : Text} {c : Char} (hs : s.head? = some c)
    (hhead : ∀ w ∈ words, w ≠ [] ∧ w.head? ≠ some c) : afterAnyWord? words s = none := by
  rw [afterAnyWord?, List.findSome?_eq_none_iff]
  intro w hw
  rw [Option.eq_none_iff_forall_ne_some]
  intro r hr
  obtain ⟨hne, hother⟩ := hhead w hw
  obtain ⟨d, w', rfl⟩ := List.exists_cons_of_ne_nil hne
  rw [afterWord?_eq_some_iff.mp hr] at hs
  exact hother hs

/-- A word that may be missing is passed over. -/
theorem skipWord_append (hwords : PrefixFree words) {s : Text} {c : Char} (hs : s.head? = some c)
    (hhead : ∀ w ∈ words, w ≠ [] ∧ w.head? ≠ some c) {w : Text} (hw : w ∈ [] :: words) :
    skipWord words (w ++ s) = s := by
  rcases List.mem_cons.mp hw with rfl | hw
  · rw [List.nil_append, skipWord, afterAnyWord?_eq_none hs hhead]
    rfl
  · rw [skipWord, afterAnyWord?_append hwords hw]
    rfl

/-! ### Namespace statements -/

/-- The gap of one space. -/
def Gap.space : Gap := ⟨[' '], by decide, List.forall_mem_singleton.mpr rfl⟩

/-- The line of a namespace, up to its semicolon or its opening brace. -/
structure NamespaceLine where
  name : NestedName
  braced : Bool

namespace NamespaceLine

variable (l : NamespaceLine)

/-- What ends the line. -/
def ending : Text := if l.braced then [' ', Char.ofNat 123] else [';']

def text : Text := "namespace".toList ++ (Gap.space.text ++ (l.name.text ++ l.ending))

theorem isName_namespace : IsName "namespace".toList := by decide

theorem text_append (x : Text) :
    l.text ++ x = "namespace".toList ++ (Gap.space.text ++ (l.name.text ++ (l.ending ++ x))) := by
  have assoc : ∀ w g n e : Text, w ++ (g ++ (n ++ e)) ++ x = w ++ (g ++ (n ++ (e ++ x))) := by
    intro w g n e
    simp only [List.append_assoc]
  exact assoc _ _ _ _

theorem namespaceName?_append (x : Text) :
    namespaceName? (l.name.text ++ (l.ending ++ x)) = some (l.name.text, x) := by
  have hall : ∀ c ∈ l.name.text, isNamespaceChar c = true := fun c => l.name.isNamespaceChar_of_mem
  have hspace : isNamespaceChar ' ' = false := by decide
  have hsemicolon : isNamespaceChar ';' = false := by decide
  have hblanks : isBlank ' ' = true ∧ isBlank ';' = false ∧ isBlank (Char.ofNat 123) = false := by
    decide
  obtain ⟨c, cs, hc⟩ := List.exists_cons_of_ne_nil l.name.text_ne_nil
  unfold namespaceName?
  rw [List.takeWhile_append_of_pos hall, List.dropWhile_append_of_pos hall, ending, hc]
  cases l.braced <;> simp [hspace, hsemicolon, hblanks]

/-- **A namespace line is read** up to its end, whatever follows. -/
theorem readNamespace_text (x : Text) : readNamespace (l.text ++ x) = some (l.name.text, x) := by
  have hwords : PrefixFree ["namespace".toList] := by decide
  rw [readNamespace, text_append, isName_namespace.dropWhile_isBlank,
    afterSpacedWord?_append hwords (List.mem_singleton_self _) Gap.space (l.name.head?_append _),
    Option.bind_some]
  exact l.namespaceName?_append x

/-- The line has the characters of names and few others. -/
theorem not_mem_text {c : Char} (hc : isNamespaceChar c = false)
    (hother : c ∉ [' ', ';', Char.ofNat 123]) : c ∉ l.text := by
  have hword : ∀ {w : Text}, w.all isNamespaceChar = true → c ∉ w := fun hw h => by
    rw [List.all_eq_true.mp hw c h] at hc
    cases hc
  have hname : c ∉ l.name.text :=
    hword (List.all_eq_true.mpr fun _ => l.name.isNamespaceChar_of_mem)
  have hspace : c ∉ Gap.space.text := fun h => by
    rw [List.mem_singleton.mp h] at hother
    exact hother List.mem_cons_self
  have hend : l.ending ⊆ [' ', ';', Char.ofNat 123] := by
    unfold ending
    cases l.braced <;> simp
  have hnamed := List.not_mem_append hname fun h => hother (hend h)
  exact List.not_mem_append (hword (by decide)) (List.not_mem_append hspace hnamed)

theorem lineFeed_not_mem_text : '\n' ∉ l.text := l.not_mem_text (by decide) (by decide)

theorem text_ne_nil : l.text ≠ [] :=
  List.append_ne_nil_of_left_ne_nil isName_namespace.ne_nil _

/-- No line starts behind a namespace line, before its line feed. -/
theorem atLineStart_text (lineStart : Bool) : atLineStart lineStart l.text = false :=
  atLineStart_eq_false l.text_ne_nil l.lineFeed_not_mem_text

/-- The line begins with no other word. -/
theorem beginsWith_text {words : List Text} (hwords : ∀ w ∈ words, IsName w)
    (hnot : "namespace".toList ∉ words) (x : Text) : beginsWith words (l.text ++ x) = false := by
  rw [text_append]
  exact beginsWith_name hwords isName_namespace (Gap.space.head?_append _) hnot

/-- No declaration is read in a namespace line. -/
theorem passes_readDeclaration (lineStart : Bool) (x : Text) :
    Passes readDeclaration false lineStart l.text x := by
  have hread := beginsBy_readDeclaration
  exact passes_line (fun h => l.lineFeed_not_mem_text (List.dropLast_subset _ h)) fun _ =>
    hread.begins (l.beginsWith_text hread.names (by decide) x)

end NamespaceLine

/-! ### Declarations -/

/-- A modifier and the gap after it. -/
structure Modifier where
  word : Text
  mem : word ∈ modifiers
  gap : Gap

/-- A text with modifiers in front. -/
def modified : List Modifier → Text → Text
  | [], s => s
  | m :: ms, s => m.word ++ (m.gap.text ++ modified ms s)

/-- A declaration up to its name. -/
structure Declaration where
  indent : Text
  blank : ∀ c ∈ indent, isBlank c = true
  modifiers : List Modifier
  word : Text
  mem : word ∈ declarationWords
  gap : Gap
  name : PlainName

theorem prefixFree_modifiers : PrefixFree DocTypes.modifiers := by decide

theorem prefixFree_declarationWords : PrefixFree declarationWords := by decide

theorem isName_of_mem_modifiers : ∀ w ∈ DocTypes.modifiers, IsName w := by decide

theorem isName_of_mem_declarationWords : ∀ w ∈ declarationWords, IsName w := by decide

theorem modified_append (s x : Text) : ∀ ms : List Modifier,
    modified ms s ++ x = modified ms (s ++ x)
  | [] => rfl
  | m :: ms => by
    simp only [modified, List.append_assoc, modified_append s x ms]

/-- Modifiers and what follows them begin with a name. -/
theorem exists_eq_modified {n r : Text} (hn : IsName n)
    (hr : ∀ c ∈ r.head?, isWordChar c = false) (ms : List Modifier) :
    ∃ n' r', modified ms (n ++ r) = n' ++ r' ∧ IsName n' ∧
      ∀ c ∈ r'.head?, isWordChar c = false := by
  cases ms with
  | nil => exact ⟨n, r, rfl, hn, hr⟩
  | cons m ms => exact ⟨m.word, _, rfl, isName_of_mem_modifiers _ m.mem, m.gap.head?_append _⟩

/-- All modifiers are passed over, up to another name. -/
theorem skipModifiers_modified {n r : Text} (hn : IsName n)
    (hr : ∀ c ∈ r.head?, isWordChar c = false) (hnot : n ∉ modifiers) :
    ∀ ms : List Modifier, skipModifiers (modified ms (n ++ r)) = n ++ r
  | [] => skipModifiers_of_none (afterSpacedWord?_eq_none isName_of_mem_modifiers hn hr hnot)
  | m :: ms => by
    obtain ⟨n', r', heq, hn', -⟩ := exists_eq_modified hn hr ms
    have hsome := afterSpacedWord?_append prefixFree_modifiers m.mem m.gap
      (hn'.head?_append r')
    rw [← heq] at hsome
    rw [modified, skipModifiers_of_some hsome]
    exact skipModifiers_modified hn hr hnot ms

section
variable {α : Type} {read : Recogniser α} {s x : Text} (hread : BeginsBy words read)
include hread

/-- A word that is not read, and the gap after it, in front of what is not read. -/
theorem passes_spaced {n : Text} (hn : IsName n) (hnot : n ∉ words) (b : Gap) (hne : s ≠ [])
    (hs : Passes read false true s x) : Passes read false true (n ++ (b.text ++ s)) x := by
  have hgap : ∀ c ∈ (b.text ++ s ++ x).head?, isWordChar c = false := by
    rw [List.append_assoc]
    exact b.head?_append (s ++ x)
  have hblanks : Passes read false true b.text (s ++ x) :=
    hread.passes_blanks b.blank (hs.read_eq_none hne)
  exact (hread.passes_name hn hgap hnot).append
    ((hblanks.of_lineStart _).append (hs.of_lineStart _))

theorem passes_modified (hnot : ∀ w ∈ modifiers, w ∉ words) (hne : s ≠ [])
    (hs : Passes read false true s x) : ∀ ms : List Modifier,
    modified ms s ≠ [] ∧ Passes read false true (modified ms s) x
  | [] => ⟨hne, hs⟩
  | m :: ms => by
    obtain ⟨hne', hs'⟩ := passes_modified hnot hne hs ms
    have hm := isName_of_mem_modifiers m.word m.mem
    exact ⟨List.append_ne_nil_of_left_ne_nil hm.ne_nil _,
      passes_spaced hread hm (hnot _ m.mem) m.gap hne' hs'⟩

end

namespace Declaration

variable (d : Declaration)

def text : Text :=
  d.indent ++ modified d.modifiers (d.word ++ (d.gap.text ++ d.name.text))

/-- A declaration ends with the declared name. -/
theorem text_eq :
    d.text = d.indent ++ modified d.modifiers (d.word ++ d.gap.text) ++ d.name.text := by
  rw [text, List.append_assoc, modified_append, List.append_assoc]

theorem text_ne_nil : d.text ≠ [] := by
  rw [text_eq]
  exact List.append_ne_nil_of_right_ne_nil _ d.name.isName.ne_nil

/-- No line starts behind the declared name. -/
theorem atLineStart_text (lineStart : Bool) : atLineStart lineStart d.text = false := by
  rw [text_eq, atLineStart_append]
  exact atLineStart_eq_false d.name.isName.ne_nil d.name.isName.lineFeed_not_mem

/-- **A declaration is read** up to the end of its name, whatever follows. -/
theorem readDeclaration_text {x : Text} (hx : ∀ c ∈ x.head?, isWordChar c = false) :
    readDeclaration (d.text ++ x) = some (d.name.text, x) := by
  have hword := isName_of_mem_declarationWords _ d.mem
  have hnot : d.word ∉ DocTypes.modifiers := by
    have hall : ∀ w ∈ declarationWords, w ∉ DocTypes.modifiers := by decide
    exact hall _ d.mem
  have hgap := d.gap.head?_append (d.name.text ++ x)
  obtain ⟨n, r, heq, hn, -⟩ := exists_eq_modified hword hgap d.modifiers
  unfold readDeclaration text
  rw [List.append_assoc, modified_append, List.dropWhile_append_of_pos d.blank,
    List.append_assoc, List.append_assoc, heq, hn.dropWhile_isBlank, ← heq,
    skipModifiers_modified hword hgap hnot,
    afterSpacedWord?_append prefixFree_declarationWords d.mem d.gap
      (d.name.isName.head?_append x), Option.bind_some]
  exact d.name.isName.name?_append hx

/-- No namespace statement is read in a declaration, whose words may stand on lines of
their own, if the declared name is not its word. -/
theorem passes_readNamespace (hd : d.name.text ≠ "namespace".toList) {x : Text}
    (hx : ∀ c ∈ x.head?, isWordChar c = false) (lineStart : Bool) :
    Passes readNamespace false lineStart d.text x := by
  have hread := beginsBy_readNamespace
  have hnot : ∀ w ∈ DocTypes.modifiers ++ declarationWords, w ∉ ["namespace".toList] := by decide
  have hword := isName_of_mem_declarationWords _ d.mem
  have hname : Passes readNamespace false true d.name.text x :=
    hread.passes_name d.name.isName hx fun h => hd (List.mem_singleton.mp h)
  have hdeclared := passes_spaced hread hword (hnot _ (List.mem_append_right _ d.mem)) d.gap
    d.name.isName.ne_nil hname
  obtain ⟨hne, hmodified⟩ := passes_modified hread
    (fun w hw => hnot w (List.mem_append_left _ hw))
    (List.append_ne_nil_of_left_ne_nil hword.ne_nil _) hdeclared d.modifiers
  have hindent : Passes readNamespace false true d.indent _ :=
    hread.passes_blanks d.blank (hmodified.read_eq_none hne)
  exact (hindent.append (hmodified.of_lineStart _)).of_lineStart lineStart

end Declaration

end Written
end DocTypes
