/-
# Lists and groups of imports

The body of an import statement lists its imports between commas, or between the braces of a
group. Either way every item is read for itself: blanks around it do not count, and a blank
one behind the last comma is passed over (`importsOf_list`). In a group the names begin with
what stands in front of the brace, and the group imports what its parts import one by one
(`ImportGroup.importsOf_eq_flatMap`). So the imports of a written list are read back, also
from the braces of a group (`ImportList.importsOf_written`).

Functions and constants are told by a space behind their word. With one they give no import,
and in a group their parts are passed over; with another blank there they are read as types
(`OtherImport.importsOf_passedOver`).

Key definitions: `GroupPart`, `ImportGroup`, `ListedImport`, `ImportList`, `OtherImport`.
Key theorems: `ImportGroup.importsOf_eq_flatMap`, `ImportList.importsOf_written`,
`importsOther_trimBlank_iff`, `OtherImport.importsOf_passedOver`.
-/
import DocTypes.Proofs.Imports

namespace DocTypes

/-! ### Groups -/

/-- A part of a group, between two commas or at an end. -/
structure GroupPart where
  text : Text
  comma_not_mem : ',' ∉ text
  unclosed : ∀ c ∈ text.getLast?, c ≠ groupCloser

/-- A text without commas and closing braces is a part. -/
def GroupPart.ofText (s : Text) (hcomma : ',' ∉ s) (hcloser : groupCloser ∉ s) : GroupPart where
  text := s
  comma_not_mem := hcomma
  unclosed := fun _ hc he => hcloser (he ▸ List.mem_of_getLast? hc)

/-- Parts with commas between them are cut at the commas again. -/
theorem GroupPart.cutAll_join {parts : List GroupPart} (hne : parts ≠ []) :
    Text.cutAll ',' (Text.join ',' (parts.map GroupPart.text)) = parts.map GroupPart.text := by
  refine Text.cutAll_join (by simpa using hne) fun s hs => ?_
  obtain ⟨part, -, rfl⟩ := List.mem_map.mp hs
  exact part.comma_not_mem

/-- A body with a group: what stands in front of the brace, and the parts in the braces. -/
structure ImportGroup where
  shared : Text
  opener_not_mem : groupOpener ∉ shared
  parts : List GroupPart

namespace ImportGroup

variable (g : ImportGroup)

/-- What stands in the braces. -/
def inner : Text := Text.join ',' (g.parts.map GroupPart.text)

def text : Text := g.shared ++ groupOpener :: (g.inner ++ [groupCloser])

/-- What the names begin with. -/
def base : Text := g.shared.trimBlank.trimEnd (· == separator)

/-- The group with one part. -/
def only (part : GroupPart) : ImportGroup := { g with parts := [part] }

/-- What a part imports: nothing if it is blank or imports a function or a constant. -/
def importsOfPart (part : GroupPart) : List Import :=
  if part.text.trimBlank = [] ∨ importsOther part.text.trimBlank = true then []
  else [Import.ofItem (g.base ++ separator :: part.text.trimBlank)]

theorem trimBlank_text : g.text.trimBlank =
    g.shared.trimStart isBlank ++ groupOpener :: (g.inner ++ [groupCloser]) := by
  have hblank : isBlank groupOpener = false := by decide
  have hlast : ∀ c ∈ (g.shared.trimStart isBlank ++
      groupOpener :: (g.inner ++ [groupCloser])).getLast?, isBlank c = false := by
    intro c hc
    obtain rfl : groupCloser = c := by simpa [List.getLast?_append, List.getLast?_cons] using hc
    decide
  rw [Text.trimBlank, Text.trim, text, Text.trimStart, Text.dropWhile_append_cons hblank]
  exact Text.trimEnd_eq_self hlast

/-- Whether a group imports types is told in front of the brace. -/
theorem importsOther_text :
    importsOther g.text.trimBlank = importsOther (g.shared.trimStart isBlank) := by
  rw [g.trimBlank_text]
  exact importsOther_append_mark mark_groupOpener _ _

theorem cutAll_inner :
    ((Text.cutAll ',' g.inner).map Text.trimBlank).filter
        (fun part => part ≠ [] ∧ importsOther part = false) =
      ((g.parts.map GroupPart.text).map Text.trimBlank).filter
        (fun part => part ≠ [] ∧ importsOther part = false) := by
  cases hparts : g.parts with
  | nil =>
    rw [inner, hparts]
    rfl
  | cons part parts =>
    rw [inner, GroupPart.cutAll_join (by simp [hparts]), hparts]

theorem trimEnd_inner : (g.inner ++ [groupCloser]).trimEnd (· == groupCloser) = g.inner := by
  have hclosers : ∀ c ∈ [groupCloser], (c == groupCloser) = true := by simp
  rw [Text.trimEnd_append_right hclosers]
  refine Text.trimEnd_eq_self fun c hc => ?_
  rw [beq_eq_false_iff_ne]
  rcases Text.mem_getLast?_join hc with rfl | ⟨s, hs, hc⟩
  · decide
  · obtain ⟨p, -, rfl⟩ := List.mem_map.mp hs
    exact p.unclosed c hc

/-- **A group imports what its parts import**, in order. -/
theorem importsOf_eq_flatMap :
    importsOf g.text =
      if importsOther g.text.trimBlank then [] else g.parts.flatMap g.importsOfPart := by
  have hopener : groupOpener ∉ g.shared.trimStart isBlank := fun h =>
    g.opener_not_mem ((List.dropWhile_suffix isBlank).subset h)
  have hpart : ∀ parts : List GroupPart,
      (((parts.map GroupPart.text).map Text.trimBlank).filter
        (fun part => part ≠ [] ∧ importsOther part = false)).map
          (fun part => Import.ofItem (g.base ++ separator :: part)) =
        parts.flatMap g.importsOfPart := by
    intro parts
    induction parts with
    | nil => rfl
    | cons part parts ih =>
      rw [List.flatMap_cons, ← ih, importsOfPart, List.map_cons, List.map_cons, List.filter_cons]
      by_cases hnil : part.text.trimBlank = []
      · simp [hnil]
      · cases importsOther part.text.trimBlank <;> simp [hnil]
  have hitems : (itemsOf g.text.trimBlank).map Import.ofItem = g.parts.flatMap g.importsOfPart := by
    have hbase : (g.shared.trimStart isBlank).trimBlank = g.shared.trimBlank :=
      Text.trim_trimStart isBlank g.shared
    rw [← hpart, ← g.cutAll_inner, itemsOf, g.trimBlank_text, Text.after?_append_cons hopener]
    simp only [before_append_cons hopener, groupItems, g.trimEnd_inner, hbase, List.map_map, base,
      Function.comp_def]
  simp only [importsOf, hitems]

end ImportGroup

/-! ### Written lists -/

/-- The name within another one. -/
def Import.within (base : Text) (i : Import) : Import := ⟨i.shortName, base ++ separator :: i.name⟩

namespace Written

/-- Blanks, or nothing. -/
structure Blanks where
  text : Text
  blank : ∀ c ∈ text, isBlank c = true

namespace Blanks

variable (b : Blanks)

theorem not_mem {c : Char} (hc : isBlank c = false) : c ∉ b.text := fun h => by
  rw [b.blank c h] at hc
  cases hc

def part : GroupPart := .ofText b.text (b.not_mem rfl) (b.not_mem rfl)

theorem trimBlank_text : b.text.trimBlank = [] := Text.trim_eq_nil_iff.mpr b.blank

end Blanks

/-- An import in a list, with the blanks around it. -/
structure ListedImport where
  before : Blanks
  item : ImportItem
  after : Blanks

namespace ListedImport

variable (i : ListedImport)

def text : Text := i.before.text ++ (i.item.text ++ i.after.text)

theorem trimBlank_text : i.text.trimBlank = i.item.text := by
  rw [text, Text.trimBlank, Text.trim_append_left i.before.blank,
    Text.trim_append_right i.after.blank]
  exact i.item.trimBlank_text

theorem not_mem_text {c : Char} (hname : isNamespaceChar c = false) (hblank : isBlank c = false) :
    c ∉ i.text :=
  List.not_mem_append (i.before.not_mem hblank)
    (List.not_mem_append (i.item.not_mem_text hname hblank) (i.after.not_mem hblank))

def part : GroupPart :=
  .ofText i.text (i.not_mem_text (by decide) (by decide)) (i.not_mem_text (by decide) (by decide))

end ListedImport

/-- Imports with commas between them. Behind a comma at the end there are only blanks. -/
structure ImportList where
  items : List ListedImport
  ne_nil : items ≠ []
  trailing : Option Blanks

namespace ImportList

variable (l : ImportList)

/-- What stands between the commas and at the ends. -/
def parts : List GroupPart := l.items.map ListedImport.part ++ l.trailing.toList.map Blanks.part

def text : Text := Text.join ',' (l.parts.map GroupPart.text)

/-- What the list imports, item by item. -/
def entries : List Import := l.items.map fun i => i.item.entry

/-- The list in the braces of a group. -/
def groupText (p : NestedName) : Text :=
  p.text ++ separator :: groupOpener :: (l.text ++ [groupCloser])

theorem opener_not_mem : groupOpener ∉ l.text := fun h => by
  have hparts : ∀ part ∈ l.parts, groupOpener ∉ part.text := by
    intro part hp
    rcases List.mem_append.mp hp with hp | hp
    · obtain ⟨i, -, rfl⟩ := List.mem_map.mp hp
      exact i.not_mem_text (by decide) (by decide)
    · obtain ⟨b, -, rfl⟩ := List.mem_map.mp hp
      exact b.not_mem rfl
  rcases Text.mem_join h with he | ⟨s, hs, hmem⟩
  · exact absurd he (by decide)
  · obtain ⟨part, hp, rfl⟩ := List.mem_map.mp hs
    exact hparts part hp hmem

/-- The first item decides that the list imports types. -/
theorem importsOther_trimBlank_text : importsOther l.text.trimBlank = false := by
  obtain ⟨i, is, hitems⟩ := List.exists_cons_of_ne_nil l.ne_nil
  obtain ⟨rest, htext, hrest⟩ := Text.exists_join_cons ',' i.text
    ((is.map ListedImport.part ++ l.trailing.toList.map Blanks.part).map GroupPart.text)
  have hbehind : ∀ c ∈ (i.after.text ++ rest).head?, isBlank c = true ∨ Mark c := by
    intro c hc
    cases hafter : i.after.text with
    | nil =>
      rw [hafter] at hc
      obtain rfl := hrest c hc
      exact Or.inr mark_comma
    | cons d ds =>
      rw [hafter] at hc
      cases hc
      exact Or.inl (i.after.blank c (by rw [hafter]; exact List.mem_cons_self))
  have hlist : l.text = i.before.text ++ (i.item.text ++ (i.after.text ++ rest)) := by
    rw [text, parts, hitems]
    refine htext.trans ?_
    simp only [ListedImport.text, List.append_assoc]
  have hstart : Text.trimStart isBlank l.text = i.item.text ++ (i.after.text ++ rest) := by
    rw [hlist, Text.trimStart, List.dropWhile_append_of_pos i.before.blank]
    exact Text.trimStart_eq_self (i.item.head?_text _)
  -- what is left of the list begins it, so a word that it begins with would be there before
  rw [Bool.eq_false_iff]
  intro hother
  have hprefix : l.text.trimBlank <+: Text.trimStart isBlank l.text := List.rdropWhile_prefix _ _
  have hfirst := importsOther_of_prefix hprefix hother
  rw [hstart, i.item.importsOther_text_append hbehind] at hfirst
  cases hfirst

/-- The pieces of the list are its items, without the blanks. -/
theorem listed_text : listed l.text = l.items.map fun i => i.item.text := by
  have hne : l.parts ≠ [] := by simp [parts, l.ne_nil]
  have hitems : l.items.map (fun i => i.part.text.trimBlank) = l.items.map fun i => i.item.text :=
    List.map_congr_left fun i _ => i.trimBlank_text
  have hkept : (l.items.map fun i => i.item.text).filter (fun s => s ≠ []) =
      l.items.map fun i => i.item.text := by
    rw [List.filter_eq_self]
    intro s hs
    obtain ⟨i, -, rfl⟩ := List.mem_map.mp hs
    exact decide_eq_true i.item.text_ne_nil
  have hdropped : (l.trailing.toList.map fun b => b.part.text.trimBlank).filter (fun s => s ≠ []) =
      [] := by
    rw [List.filter_eq_nil_iff]
    intro s hs
    obtain ⟨b, -, rfl⟩ := List.mem_map.mp hs
    have hblank : b.part.text.trimBlank = [] := b.trimBlank_text
    simp [hblank]
  rw [listed, text, GroupPart.cutAll_join hne, parts]
  simp only [List.map_append, List.map_map, List.filter_append, Function.comp_def]
  rw [hitems, hkept, hdropped, List.append_nil]

/-! ### In a group -/

def group (p : NestedName) : ImportGroup where
  shared := p.text ++ [separator]
  opener_not_mem := List.not_mem_append
    (fun h => absurd (p.isNamespaceChar_of_mem h) (by decide)) (by decide)
  parts := l.parts

variable (p : NestedName)

theorem text_group : (l.group p).text = l.groupText p := List.append_assoc _ _ _

theorem unbroken_shared : Unbroken (l.group p).shared := p.unbroken_append (by simp [Unbroken])

theorem base_group : (l.group p).base = p.text := by
  rw [ImportGroup.base, (l.unbroken_shared p).trimBlank_eq]
  exact (Text.trimEnd_append_right (by simp) _).trans
    (Text.trimEnd_eq_self p.trimmed_separator.last)

theorem importsOther_group : importsOther (l.group p).text.trimBlank = false := by
  rw [ImportGroup.importsOther_text,
    Text.trimStart_eq_self (l.unbroken_shared p).trimmed.first]
  exact importsOther_of_unbroken (l.unbroken_shared p)

theorem importsOfPart_item (i : ListedImport) :
    (l.group p).importsOfPart i.part = [i.item.entry.within p.text] := by
  have hunbroken : Unbroken (p.text ++ separator :: i.item.name.text) :=
    p.unbroken_append i.item.name.unbroken_text
  have hassoc : p.text ++ separator :: i.item.text =
      (p.text ++ separator :: i.item.name.text) ++ i.item.renamed.elim [] Alias.text := by
    simp [ImportItem.text]
  have htrim : i.part.text.trimBlank = i.item.text := i.trimBlank_text
  rw [ImportGroup.importsOfPart, htrim,
    if_neg (by simp [i.item.text_ne_nil, i.item.importsOther_text]), base_group, hassoc,
    i.item.ofItem_append hunbroken (i.item.name.endsInSegment_text.append p.text)]
  rfl

theorem importsOfPart_blanks (b : Blanks) : (l.group p).importsOfPart b.part = [] :=
  if_pos (Or.inl b.trimBlank_text)

/-- **A written list of imports is read back**, item by item and in order, and in the braces
of a group every name is within the name in front. -/
theorem importsOf_written :
    importsOf l.text = l.entries ∧
      ∀ p : NestedName, importsOf (l.groupText p) = l.entries.map (Import.within p.text) := by
  constructor
  · rw [importsOf_list l.opener_not_mem, if_neg (by simp [l.importsOther_trimBlank_text]),
      l.listed_text, List.map_map]
    exact List.map_congr_left fun i _ => i.item.ofItem_text
  · intro p
    have hitems : l.items.flatMap (fun i => (l.group p).importsOfPart i.part) =
        l.entries.map (Import.within p.text) := by
      simp only [l.importsOfPart_item p, entries, List.map_map]
      exact List.map_eq_flatMap.symm
    have htrailing : l.trailing.toList.flatMap (fun b => (l.group p).importsOfPart b.part) = [] := by
      simp [l.importsOfPart_blanks p]
    have hparts : (l.group p).parts = l.parts := rfl
    rw [← l.text_group p, ImportGroup.importsOf_eq_flatMap,
      if_neg (by simp [l.importsOther_group p]), hparts, parts, List.flatMap_append,
      List.flatMap_map, List.flatMap_map, hitems, htrailing, List.append_nil]

/-- The word of aliases may be a name, and an alias; blanks are of any kind. -/
example : importsOf "Lib\\as AS\tas ,\n\tCart,\n".toList =
    [⟨"as".toList, "Lib\\as".toList⟩, ⟨"Cart".toList, "Cart".toList⟩] := by decide +kernel

end ImportList
end Written

/-! ### Functions and constants -/

open Written

/-- A body that imports a function or a constant: one of their words in some letter case,
blanks, and the rest. -/
structure OtherImport where
  word : Text
  isOther : word.lower ∈ otherImports
  gap : Gap
  rest : Text

namespace OtherImport

variable (o : OtherImport)

def text : Text := o.word ++ (o.gap.text ++ o.rest)

/-- The first blank is a space, and there is something behind the blanks. -/
def Spaced : Prop := o.gap.text.head? = some ' ' ∧ o.rest.trimBlank ≠ []

instance : Decidable o.Spaced :=
  inferInstanceAs (Decidable (o.gap.text.head? = some ' ' ∧ o.rest.trimBlank ≠ []))

theorem unbroken_word : Unbroken o.word := (unbroken_of_mem_otherImports _ o.isOther).of_lower

theorem word_ne_nil : o.word ≠ [] := fun h => by
  have hmem := o.isOther
  rw [h] at hmem
  exact absurd hmem (by decide)

/-- What is behind the last word goes, blanks and all; what is in front of it stays. -/
theorem trimBlank_text (h : o.rest.trimBlank ≠ []) :
    ∃ r, o.text.trimBlank = o.word ++ (o.gap.text ++ r) := by
  obtain ⟨a, b, hrest, -, hb⟩ := Text.exists_eq_trim isBlank o.rest
  have hlast : ∀ x : Text, (x ++ o.rest.trimBlank).getLast? = o.rest.trimBlank.getLast? :=
    fun _ => List.getLast?_append_of_ne_nil _ h
  have htrimmed : Text.Trimmed isBlank (o.word ++ (o.gap.text ++ (a ++ o.rest.trimBlank))) := by
    constructor
    · intro c hc
      rw [List.head?_append_of_ne_nil _ o.word_ne_nil] at hc
      exact o.unbroken_word c (List.mem_of_head? hc)
    · intro c hc
      rw [← List.append_assoc, ← List.append_assoc, hlast] at hc
      exact (Text.trimmed_trim isBlank o.rest).last c hc
  have htext : o.text = (o.word ++ (o.gap.text ++ (a ++ o.rest.trimBlank))) ++ b := by
    rw [text]
    conv_lhs => rw [hrest]
    simp only [List.append_assoc]
    rfl
  refine ⟨a ++ o.rest.trimBlank, ?_⟩
  rw [htext, Text.trimBlank, Text.trim_append_right hb]
  exact htrimmed.trim_eq

theorem importsOther_text_iff : importsOther o.text.trimBlank = true ↔ o.Spaced := by
  by_cases hrest : o.rest.trimBlank = []
  · have hblank : ∀ c ∈ o.gap.text ++ o.rest, isBlank c = true := by
      rw [List.forall_mem_append]
      exact ⟨o.gap.blank, Text.trim_eq_nil_iff.mp hrest⟩
    have hword : o.text.trimBlank = o.word := by
      rw [text, Text.trimBlank, Text.trim_append_right hblank]
      exact o.unbroken_word.trimBlank_eq
    simp [hword, importsOther_of_unbroken o.unbroken_word, Spaced, hrest]
  · obtain ⟨r, htrim⟩ := o.trimBlank_text hrest
    obtain ⟨c, cs, hgap⟩ := List.exists_cons_of_ne_nil o.gap.ne_nil
    have hc : isBlank c = true := o.gap.blank c (by rw [hgap]; exact List.mem_cons_self)
    rw [Spaced, htrim, hgap, importsOther_iff_word]
    constructor
    · rintro ⟨word, x, hword, he⟩
      have hunbroken : Unbroken word := (unbroken_of_mem_otherImports _ hword).of_lower
      obtain rfl := o.unbroken_word.append_inj hunbroken hc rfl he
      obtain ⟨rfl, -⟩ := List.cons.inj (List.append_cancel_left he)
      exact ⟨rfl, hrest⟩
    · rintro ⟨hspace, -⟩
      obtain rfl := Option.some.inj hspace
      exact ⟨o.word, cs ++ r, o.isOther, rfl⟩

end OtherImport

/-- The text imports a function or a constant, and has a space behind their word. -/
def PassedOver (s : Text) : Prop := ∃ o : OtherImport, o.Spaced ∧ s.trimBlank = o.text

/-- **Functions and constants are passed over just where a space is behind their word.** -/
theorem importsOther_trimBlank_iff {s : Text} :
    importsOther s.trimBlank = true ↔ PassedOver s := by
  have htrim : s.trimBlank.trimBlank = s.trimBlank := (Text.trimmed_trim isBlank s).trim_eq
  constructor
  · intro h
    obtain ⟨word, r, hword, hs⟩ := importsOther_iff_word.mp h
    refine ⟨⟨word, hword, Gap.space, r⟩, ?_, hs⟩
    rw [← OtherImport.importsOther_text_iff]
    rwa [← htrim, hs] at h
  · rintro ⟨o, ho, hs⟩
    rwa [← htrim, hs, o.importsOther_text_iff]

instance (s : Text) : Decidable (PassedOver s) :=
  decidable_of_iff _ importsOther_trimBlank_iff

namespace ImportGroup

variable (g : ImportGroup)

/-- Without a function or a constant in front, a part is imported as if it were alone. -/
theorem importsOf_only (part : GroupPart) : importsOf (g.only part).text =
    if importsOther g.text.trimBlank then [] else g.importsOfPart part := by
  rw [importsOf_eq_flatMap, importsOther_text, importsOther_text]
  exact congrArg (ite _ []) (List.append_nil _)

theorem importsOf_eq_flatMap_only :
    importsOf g.text = g.parts.flatMap fun part => importsOf (g.only part).text := by
  simp only [importsOf_only]
  rw [importsOf_eq_flatMap]
  split
  · exact (List.flatMap_eq_nil_iff.mpr fun _ _ => rfl).symm
  · rfl

end ImportGroup

namespace OtherImport

theorem opener_not_mem (o : OtherImport) (h : groupOpener ∉ o.rest) : groupOpener ∉ o.text := by
  have hgap : groupOpener ∉ o.gap.text := fun hm => by
    have hblank := o.gap.blank _ hm
    rw [mark_groupOpener.not_blank] at hblank
    cases hblank
  exact List.not_mem_append (mark_groupOpener.not_mem_word o.isOther) (List.not_mem_append hgap h)

/-- Without the space, what is imported is read as types. -/
theorem importsOf_text_of_not_spaced (o : OtherImport) (hspaced : ¬ o.Spaced)
    (hgroup : groupOpener ∉ o.rest) :
    importsOf o.text = (listed o.text).map Import.ofItem ∧ listed o.text ≠ [] := by
  constructor
  · rw [importsOf_list (o.opener_not_mem hgroup), if_neg (o.importsOther_text_iff.not.mpr hspaced)]
  · obtain ⟨c, cs, hword⟩ := List.exists_cons_of_ne_nil o.word_ne_nil
    have hmem : c ∈ o.word := by rw [hword]; exact List.mem_cons_self
    refine listed_ne_nil (List.mem_append_left _ hmem) (o.unbroken_word c hmem) ?_
    rintro rfl
    exact mark_comma.not_mem_word o.isOther hmem

/-- **Imports of functions and constants give nothing where a space is behind their word**:
as a body, and as a part of a group, whose other parts import what they import by
themselves. With another blank there, or with nothing behind the blanks, they are read as
types. -/
theorem importsOf_passedOver (o : OtherImport) (g : ImportGroup) :
    (o.Spaced → importsOf o.text = []) ∧
      (¬ o.Spaced → groupOpener ∉ o.rest →
        importsOf o.text = (listed o.text).map Import.ofItem ∧ listed o.text ≠ []) ∧
      importsOf g.text = g.parts.flatMap (fun part => importsOf (g.only part).text) ∧
      ∀ part : GroupPart,
        (PassedOver part.text → importsOf (g.only part).text = []) ∧
        (¬ PassedOver part.text → part.text.trimBlank ≠ [] → ¬ PassedOver g.text →
          importsOf (g.only part).text =
            [Import.ofItem (g.base ++ separator :: part.text.trimBlank)]) := by
  refine ⟨fun hspaced => ?_, o.importsOf_text_of_not_spaced, g.importsOf_eq_flatMap_only,
    fun part => ⟨fun hpart => ?_, fun hpart hne hg => ?_⟩⟩
  · exact if_pos (o.importsOther_text_iff.mpr hspaced)
  · rw [g.importsOf_only, ImportGroup.importsOfPart,
      if_pos (Or.inr (importsOther_trimBlank_iff.mpr hpart)), ite_self]
  · rw [g.importsOf_only, if_neg (importsOther_trimBlank_iff.not.mpr hg),
      ImportGroup.importsOfPart, if_neg (not_or.mpr ⟨hne, importsOther_trimBlank_iff.not.mpr hpart⟩)]

/-- A constant, a function with a tab behind its word, and a function among types. -/
theorem importsOf_passedOver_mixedGroup :
    let limit : OtherImport :=
      ⟨"CONST".toList, by decide +kernel,
        ⟨" \t".toList, by decide, List.all_eq_true.mp (by decide)⟩, "A\\LIMIT".toList⟩
    let tabbed : OtherImport :=
      ⟨"function".toList, by decide +kernel,
        ⟨['\t'], by decide, List.forall_mem_singleton.mpr rfl⟩, "strlen".toList⟩
    let renamed : GroupPart := .ofText " B as C".toList (by decide) (by decide)
    let passed : GroupPart := .ofText "\nFunction  d ".toList (by decide) (by decide)
    let g : ImportGroup := ⟨"Lib\\".toList, by decide, [renamed, passed]⟩
    (limit.Spaced ∧ importsOf limit.text = []) ∧
      (¬ tabbed.Spaced ∧ groupOpener ∉ tabbed.rest ∧ importsOf tabbed.text ≠ []) ∧
      (¬ PassedOver g.text ∧ ¬ PassedOver renamed.text ∧ PassedOver passed.text) ∧
      importsOf g.text = [⟨"C".toList, "Lib\\B".toList⟩] := by
  intro limit tabbed renamed passed g
  have hlimit : limit.Spaced := by decide +kernel
  have htabbed : ¬ tabbed.Spaced := by decide +kernel
  have hopener : groupOpener ∉ tabbed.rest := by decide
  have hg : ¬ PassedOver g.text := by decide +kernel
  have hrenamed : ¬ PassedOver renamed.text := by decide +kernel
  have hpassed : PassedOver passed.text := by decide +kernel
  obtain ⟨hnone, -, hparts, hpart⟩ := importsOf_passedOver limit g
  obtain ⟨htypes, hlisted⟩ := (importsOf_passedOver tabbed g).2.1 htabbed hopener
  have hitem : Import.ofItem (g.base ++ separator :: renamed.text.trimBlank) =
      ⟨"C".toList, "Lib\\B".toList⟩ := by decide +kernel
  refine ⟨⟨hlimit, hnone hlimit⟩, ⟨htabbed, hopener, ?_⟩, ⟨hg, hrenamed, hpassed⟩, ?_⟩
  · rw [htypes, Ne, List.map_eq_nil_iff]
    exact hlisted
  · rw [hparts, List.flatMap_cons, List.flatMap_cons, (hpart passed).1 hpassed,
      (hpart renamed).2 hrenamed (by decide) hg, hitem]
    rfl

/-- With a tab behind its word a function is read as a type, as a body and in a group. -/
theorem importsOf_passedOver_tab :
    let o : OtherImport :=
      ⟨"function".toList, by decide +kernel,
        ⟨['\t'], by decide, List.forall_mem_singleton.mpr rfl⟩, "strlen".toList⟩
    let cart : GroupPart := .ofText "Cart".toList (by decide) (by decide)
    let tabbed : GroupPart := .ofText "function\tstrlen".toList (by decide) (by decide)
    let g : ImportGroup := ⟨"Lib\\".toList, by decide, [tabbed, cart]⟩
    importsOf o.text = [⟨o.text, o.text⟩] ∧ tabbed.text = o.text ∧
      importsOf g.text = [⟨o.text, "Lib\\".toList ++ o.text⟩, ⟨"Cart".toList, "Lib\\Cart".toList⟩] := by
  decide +kernel

end OtherImport
end DocTypes
