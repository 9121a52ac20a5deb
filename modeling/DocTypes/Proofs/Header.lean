/-
# What a header says

A header of an opening line, a namespace line, import lines and template tags
(`SourceHeader`) in front of a class gives the context that is written in it,
whatever comes behind the name of the class (`SourceHeader.contextOf_text`): four
searches go through the header, and each finds its own lines and no others.

Of imports under one short name the later one counts
(`SourceHeader.find?_aliases`).

Key definitions: `TemplateTag`, `SourceHeader`.
Key theorems: `TemplateTag.readTemplate_text`, `SourceHeader.yields_text`,
`SourceHeader.contextOf_text`.
-/
import DocTypes.Proofs.Imports
import DocTypes.Source.Header

namespace DocTypes
namespace Written

/-! ### Template tags -/

/-- The vendors of a template tag. -/
def vendors : List Text := ["phpstan-".toList, "psalm-".toList]

/-- The variances of a template tag. -/
def variances : List Text := ["-covariant".toList, "-contravariant".toList]

/-- A template tag, of a vendor or of none, with a variance or without. -/
structure TemplateTag where
  vendor : Text
  vendor_mem : vendor ∈ [] :: vendors
  variance : Text
  variance_mem : variance ∈ [] :: variances
  name : PlainName

namespace TemplateTag

variable (t : TemplateTag)

def text : Text :=
  '@' :: (t.vendor ++ ("template".toList ++ (t.variance ++ (Gap.space.text ++ t.name.text))))

theorem text_append (x : Text) : t.text ++ x = '@' :: (t.vendor ++
    ("template".toList ++ (t.variance ++ (Gap.space.text ++ (t.name.text ++ x))))) := by
  have assoc : ∀ v w u g n : Text, '@' :: (v ++ (w ++ (u ++ (g ++ n)))) ++ x =
      '@' :: (v ++ (w ++ (u ++ (g ++ (n ++ x))))) := by
    intro v w u g n
    simp only [List.cons_append, List.append_assoc]
  exact assoc _ _ _ _ _

/-- **A template tag is read** up to the end of its name. -/
theorem readTemplate_text {x : Text} (hx : ∀ c ∈ x.head?, isWordChar c = false) :
    readTemplate (t.text ++ x) = some (t.name.text, x) := by
  have hvendors : PrefixFree vendors := by decide
  have hvariances : PrefixFree variances := by decide
  have htemplate : ∀ w ∈ vendors, w ≠ [] ∧ w.head? ≠ some 't' := by decide
  have hspace : ∀ w ∈ variances, w ≠ [] ∧ w.head? ≠ some ' ' := by decide
  -- the text behind each of the parts in turn
  let named := t.name.text ++ x
  let spaced := Gap.space.text ++ named
  let varied := t.variance ++ spaced
  have hat : Text.afterWord? ['@'] ('@' :: (t.vendor ++ ("template".toList ++ varied))) =
      some (t.vendor ++ ("template".toList ++ varied)) := rfl
  have hvendor : skipWord ["phpstan-".toList, "psalm-".toList]
      (t.vendor ++ ("template".toList ++ varied)) = "template".toList ++ varied :=
    skipWord_append hvendors rfl htemplate t.vendor_mem
  have hword : Text.afterWord? "template".toList ("template".toList ++ varied) = some varied :=
    afterWord?_eq_some_iff.mpr rfl
  have hvariance : skipWord ["-covariant".toList, "-contravariant".toList] varied = spaced :=
    skipWord_append hvariances rfl hspace t.variance_mem
  have hgap : spaced.afterBlanks? = some named :=
    Gap.space.afterBlanks?_append (t.name.isName.head?_append x)
  rw [text_append]
  unfold readTemplate
  rw [hat, Option.bind_some, hvendor, hword, Option.bind_some, hvariance, hgap, Option.bind_some]
  exact t.name.isName.name?_append hx

theorem text_ne_nil : t.text ≠ [] := List.cons_ne_nil _ _

theorem lineFeed_not_mem_text : '\n' ∉ t.text := by
  have hvendors : ∀ w ∈ [] :: vendors, '\n' ∉ w := by decide
  have hvariances : ∀ w ∈ [] :: variances, '\n' ∉ w := by decide
  have htemplate : '\n' ∉ "template".toList := by decide
  have hnamed : '\n' ∉ Gap.space.text ++ t.name.text :=
    List.not_mem_append (by decide) t.name.isName.lineFeed_not_mem
  have hvaried := List.not_mem_append (hvariances _ t.variance_mem) hnamed
  exact List.not_mem_cons_of_ne_of_not_mem (by decide)
    (List.not_mem_append (hvendors _ t.vendor_mem) (List.not_mem_append htemplate hvaried))

end TemplateTag

/-! ### Lines of a header -/

/-- The line that opens a source. -/
def openingLine : Text := "<?php".toList ++ ['\n']

def namespaceLine (n : NestedName) : Text := (NamespaceLine.mk n false).text ++ ['\n']

/-- An import on a line of its own. -/
structure ImportLine where
  item : ImportItem
  oneLine : '\n' ∉ item.text

def ImportLine.text (l : ImportLine) : Text := l.item.line ++ ['\n']

theorem ImportLine.lineFeed_not_mem (l : ImportLine) : '\n' ∉ l.item.line :=
  l.item.not_mem_line l.oneLine (by decide) (by decide)

/-- The line of a comment with a template tag. -/
def TemplateTag.line (t : TemplateTag) : Text := " * ".toList ++ (t.text ++ ['\n'])

section
variable {α : Type} {words : List Text} {read : Recogniser α} (hread : BeginsBy words read)
include hread

theorem yields_openingLine : Yields read false openingLine [] := by
  refine hread.yields_line (by decide) fun x => beginsWith_of_head? hread.names fun c hc => ?_
  obtain rfl : '<' = c := Option.some.inj hc
  decide

theorem yields_namespaceLine (hnot : "namespace".toList ∉ words) (n : NestedName) :
    Yields read false (namespaceLine n) [] :=
  hread.yields_line (NamespaceLine.lineFeed_not_mem_text _) fun _ =>
    NamespaceLine.beginsWith_text _ hread.names hnot _

theorem yields_importLine (hnot : "use".toList ∉ words) (l : ImportLine) :
    Yields read false l.text [] :=
  hread.yields_line l.lineFeed_not_mem fun _ => l.item.beginsWith_line hread.names hnot _

theorem yields_templateLine (t : TemplateTag) : Yields read false t.line [] := by
  have hline : '\n' ∉ " * ".toList ++ t.text :=
    List.not_mem_append (by decide) t.lineFeed_not_mem_text
  rw [TemplateTag.line, ← List.append_assoc]
  refine hread.yields_line hline fun x => beginsWith_of_head? hread.names fun c hc => ?_
  obtain rfl : '*' = c := Option.some.inj hc
  decide

end

/-- No template tag is read where there is no sign of one. -/
theorem passes_readTemplate {s : Text} (hs : '@' ∉ s) (lineStart : Bool) (x : Text) :
    Passes readTemplate true lineStart s x := by
  intro u v huv hv _
  obtain ⟨c, v, rfl⟩ := List.exists_cons_of_ne_nil hv
  have hc : ¬ '@' = c := by
    rintro rfl
    exact hs (by rw [huv]; simp)
  have hnone : Text.afterWord? ['@'] (c :: (v ++ x)) = none := if_neg hc
  rw [List.cons_append, readTemplate, hnone]
  rfl

theorem yields_readTemplate {l : Text} (hl : '@' ∉ l) :
    Yields readTemplate true (l ++ ['\n']) [] := by
  have hline : '@' ∉ l ++ ['\n'] := List.not_mem_append hl (by decide)
  exact yields_of_passes (by rw [atLineStart_append]; rfl) fun x => passes_readTemplate hline _ x

/-- The tag of a line is the one that is found in it. -/
theorem yields_templateLine_readTemplate (t : TemplateTag) :
    Yields readTemplate true t.line [t.name.text] :=
  yields_of_read t.text_ne_nil t.lineFeed_not_mem_text rfl
    (fun _ => passes_readTemplate (by decide) _ _)
    (fun _ => t.readTemplate_text fun c hc => by
      cases hc
      decide)
    fun _ => passes_readTemplate (by decide) _ _

/-! ### Headers -/

/-- A header: its namespace or none, its imports and its template tags. -/
structure SourceHeader where
  namespaceName : Option NestedName
  imports : List ImportLine
  templates : List TemplateTag

namespace SourceHeader

variable (h : SourceHeader)

def text : Text :=
  openingLine ++ (h.namespaceName.toList.flatMap namespaceLine ++
    (h.imports.flatMap ImportLine.text ++ h.templates.flatMap TemplateTag.line))

/-- The name of the namespace, empty for none. -/
def namespaceText : Text := h.namespaceName.elim [] NestedName.text

/-- The names under their short names. -/
def aliases : Table Text Text :=
  .ofList (h.imports.map fun l => (l.item.entry.shortName, l.item.entry.name))

/-- The parameters of the tags. -/
def parameters : List Text := h.templates.map (·.name.text)

/-- A search through a header goes line by line. -/
theorem yields_text {α : Type} {read : Recogniser α} {everywhere : Bool} {vs ws xs : List α}
    (hopening : Yields read everywhere openingLine [])
    (hnamespace : Yields read everywhere (h.namespaceName.toList.flatMap namespaceLine) vs)
    (himports : Yields read everywhere (h.imports.flatMap ImportLine.text) ws)
    (htemplates : Yields read everywhere (h.templates.flatMap TemplateTag.line) xs) :
    Yields read everywhere h.text (vs ++ (ws ++ xs)) :=
  hopening.append (hnamespace.append (himports.append htemplates))

theorem yields_readDeclaration : Yields readDeclaration false h.text [] := by
  have hread := beginsBy_readDeclaration
  exact h.yields_text (yields_openingLine hread)
    (.flatMap_nil (yields_namespaceLine hread (by decide)) _)
    (.flatMap_nil (yields_importLine hread (by decide)) _)
    (.flatMap_nil (yields_templateLine hread) _)

/-- The namespace line is found, and nothing else. -/
theorem map_findLines_readNamespace :
    (findLines readNamespace h.text).map (·.2) = h.namespaceName.toList.map NestedName.text := by
  have hread := beginsBy_readNamespace
  have hline : ∀ n, Yields readNamespace false (namespaceLine n) [n.text] := fun n =>
    yields_statement (NamespaceLine.text_ne_nil _) (NamespaceLine.lineFeed_not_mem_text _)
      (NamespaceLine.readNamespace_text ⟨n, false⟩)
  have hyields := h.yields_text (yields_openingLine hread) (.flatMap_map hline _)
    (.flatMap_nil (yields_importLine hread (by decide)) _)
    (.flatMap_nil (yields_templateLine hread) _)
  rw [findLines, hyields.map_findAll, List.append_nil, List.append_nil]

/-- The texts of the imports are found, and nothing else. -/
theorem map_findLines_readImports :
    (findLines readImports h.text).map (·.2) = h.imports.map (·.item.text) := by
  have hread := beginsBy_readImports
  have hline : ∀ l : ImportLine, Yields readImports false l.text [l.item.text] := fun l =>
    yields_statement l.item.line_ne_nil l.lineFeed_not_mem l.item.readImports_line
  have hyields := h.yields_text (yields_openingLine hread)
    (.flatMap_nil (yields_namespaceLine hread (by decide)) _) (.flatMap_map hline _)
    (.flatMap_nil (yields_templateLine hread) _)
  rw [findLines, hyields.map_findAll, List.append_nil, List.nil_append]

/-- The parameters of the template tags are found, and nothing else. -/
theorem map_findAnywhere_readTemplate :
    (findAnywhere readTemplate h.text).map (·.2) = h.parameters := by
  have hnamespace : ∀ n, Yields readTemplate true (namespaceLine n) [] := fun n =>
    yields_readTemplate (NamespaceLine.not_mem_text _ (by decide) (by decide))
  have himport : ∀ l : ImportLine, Yields readTemplate true l.text [] := fun l =>
    yields_readTemplate (l.item.not_mem_line (l.item.not_mem_text (by decide) (by decide))
      (by decide) (by decide))
  have hyields := h.yields_text (yields_readTemplate (by decide)) (.flatMap_nil hnamespace _)
    (.flatMap_nil himport _) (.flatMap_map yields_templateLine_readTemplate _)
  rw [findAnywhere, hyields.map_findAll]
  rfl

/-! ### The context of a class behind the header -/

/-- The header ends where the class begins. -/
theorem headerOf_text (c : PlainName) {x : Text} (hx : ∀ d ∈ x.head?, isWordChar d = false) :
    headerOf (h.text ++ ("class ".toList ++ (c.text ++ x))) = h.text := by
  have hread : readDeclaration ("class ".toList ++ c.text ++ x) = some (c.text, x) :=
    Declaration.readDeclaration_text
      ⟨[], List.forall_mem_nil _, [], "class".toList, by decide, Gap.space, c⟩ hx
  have hne : "class ".toList ++ c.text ≠ [] := List.append_ne_nil_of_right_ne_nil _ c.isName.ne_nil
  have hfound : findAll readDeclaration false (0 + h.text.length) true 0
      ("class ".toList ++ c.text ++ x) = _ := findAll_of_read hne rfl hread
  rw [← List.append_assoc _ c.text]
  rw [headerOf, findLines, h.yields_readDeclaration.findAll_append, hfound]
  simp

/-- Of imports under one short name the later one counts. -/
theorem find?_aliases (shortName : Text) :
    h.aliases.find? shortName =
      (h.imports.reverse.find? fun l => l.item.entry.shortName = shortName).map
        (·.item.entry.name) := by
  rw [aliases, Table.find?_ofList, ← List.map_reverse, List.find?_map, Option.map_map]
  rfl

/-- **A header gives the context that is written in it**, to a class of any name with
any text behind it; of imports under one short name the later one counts. -/
theorem contextOf_text (c : PlainName) {x : Text} (hx : ∀ d ∈ x.head?, isWordChar d = false) :
    contextOf (h.text ++ ("class ".toList ++ (c.text ++ x))) =
        .create h.namespaceText h.aliases h.parameters ∧
      ∀ shortName, h.aliases.find? shortName =
        (h.imports.reverse.find? fun l => l.item.entry.shortName = shortName).map
          (·.item.entry.name) := by
  refine ⟨?_, h.find?_aliases⟩
  have hnamespace : ((findLines readNamespace h.text).head?).elim [] (·.2) = h.namespaceText := by
    have hfound := congrArg List.head? h.map_findLines_readNamespace
    rw [List.head?_map, List.head?_map] at hfound
    rw [namespaceText]
    cases hn : h.namespaceName <;> cases hf : (findLines readNamespace h.text).head? <;>
      simp [hn, hf] at hfound ⊢
    exact hfound
  have haliases : ((findLines readImports h.text).flatMap fun f =>
      (importsOf f.2).map fun i => (i.shortName, i.name)) =
        h.imports.map fun l => (l.item.entry.shortName, l.item.entry.name) :=
    calc
      _ = ((findLines readImports h.text).map (·.2)).flatMap fun s =>
            (importsOf s).map fun i => (i.shortName, i.name) := by
        rw [List.flatMap_map]
      _ = h.imports.flatMap fun l =>
            (importsOf l.item.text).map fun i => (i.shortName, i.name) := by
        rw [h.map_findLines_readImports, List.flatMap_map]
      _ = h.imports.flatMap fun l => [(l.item.entry.shortName, l.item.entry.name)] := by
        simp only [ImportItem.importsOf_text, List.map_cons, List.map_nil]
      _ = _ := List.map_eq_flatMap.symm
  rw [contextOf, factsOf, h.headerOf_text c hx, HeaderFacts.read]
  simp only [hnamespace, haliases, h.map_findAnywhere_readTemplate]
  rfl

/-- A header with two imports under one short name, and an import of a name that only
begins like a function. -/
def cartHeader : SourceHeader where
  namespaceName := some ⟨["Store".toList], by decide, by decide⟩
  imports := [
    ⟨⟨⟨["Lib".toList, "Item".toList], by decide, by decide⟩, none, by decide +kernel⟩,
      by decide⟩,
    ⟨⟨⟨["Functions".toList], by decide, by decide⟩,
      some ⟨Gap.space, .small, Gap.space, ⟨"Item".toList, by decide⟩⟩, by decide +kernel⟩,
      by decide⟩]
  templates := [
    ⟨"psalm-".toList, by decide, "-covariant".toList, by decide, ⟨"T".toList, by decide⟩⟩]

theorem contextOf_text_cartHeader :
    cartHeader.text = "<?php\nnamespace Store;\nuse Lib\\Item;\nuse Functions as Item;
 * @psalm-template-covariant T\n".toList ∧
      contextOf (cartHeader.text ++ ("class ".toList ++ ("Cart".toList ++ "\nuse Late;".toList))) =
        .create "Store".toList cartHeader.aliases ["T".toList] ∧
      cartHeader.aliases.find? "Item".toList = some "Functions".toList := by
  have hcontext := cartHeader.contextOf_text ⟨"Cart".toList, by decide⟩
    (x := "\nuse Late;".toList) fun d hd => by cases hd; decide
  exact ⟨by decide +kernel, hcontext.1, by decide +kernel⟩

end SourceHeader

end Written
end DocTypes
