/-
# What an import says

The name of an import has no blanks, so the first `as` between blanks is the one
behind it (`partAs?_append`), and the import is known under its alias
(`Import.ofItem_alias`) or under its last segment (`Import.ofItem_name`). An import is
of a function or a constant just when it begins with one of their words in some letter case
and a space (`importsOther_iff_word`), as lower case goes word by word; so the name of a type
is read as neither (`importsOther_append`).

An imported type with all that may vary in its writing is an `ImportItem`. Its line
is read up to the semicolon (`ImportItem.readImports_line`), and says what is written
in it (`ImportItem.importsOf_text`).

A body without a group lists its imports between commas (`importsOf_list`).

Key definitions: `otherImports`, `Mark`, `listed`, `Alias`, `ImportItem`.
Key theorems: `importsOther_iff_word`, `importsOther_append`, `partAs?_append`,
`importsOf_list`, `ImportItem.importsOf_text`, `ImportItem.readImports_line`.
-/
import DocTypes.Proofs.Lowercase
import DocTypes.Proofs.Written
import DocTypes.Source.Header

namespace DocTypes

/-! ### Functions and constants -/

/-- The words of imports that give no alias. -/
def otherImports : List Text := ["function".toList, "const".toList]

/-- Without blanks. -/
def Unbroken (s : Text) : Prop := ∀ c ∈ s, isBlank c = false

theorem Unbroken.trimmed {s : Text} (hs : Unbroken s) : Text.Trimmed isBlank s :=
  ⟨fun c hc => hs c (List.mem_of_head? hc), fun c hc => hs c (List.mem_of_getLast? hc)⟩

theorem Unbroken.trimBlank_eq {s : Text} (hs : Unbroken s) : s.trimBlank = s := hs.trimmed.trim_eq

theorem Unbroken.lower {s : Text} (hs : Unbroken s) : Unbroken s.lower := by
  intro c hc
  rw [Bool.eq_false_iff]
  intro hb
  rw [Text.mem_lower_iff (isCaseless_of_isBlank hb)] at hc
  rw [hs c hc] at hb
  cases hb

/-- A text begins with at most one word up to a blank. -/
theorem Unbroken.append_inj {s t : Text} (hs : Unbroken s) (ht : Unbroken t) {c d : Char}
    (hc : isBlank c = true) (hd : isBlank d = true) {x y : Text} (h : s ++ c :: x = t ++ d :: y) :
    s = t := by
  have hword : ∀ {u : Text} {e : Char} (z : Text), Unbroken u → isBlank e = true →
      (u ++ e :: z).takeWhile (fun a => !isBlank a) = u := by
    intro u e z hu he
    rw [List.takeWhile_append_of_pos fun a ha => by simp [hu a ha],
      List.takeWhile_cons_of_neg (by simp [he]), List.append_nil]
  rw [← hword x hs hc, h, hword y ht hd]

theorem Unbroken.of_lower {s : Text} (hs : Unbroken s.lower) : Unbroken s := by
  intro c hc
  rw [Bool.eq_false_iff]
  intro hb
  rw [← Text.mem_lower_iff (isCaseless_of_isBlank hb)] at hc
  rw [hs c hc] at hb
  cases hb

theorem importsOther_iff {s : Text} :
    importsOther s = true ↔ ∃ w ∈ otherImports, ∃ r, s.lower = w ++ ' ' :: r := by
  have hwords : otherImportWords = otherImports.map (· ++ [' ']) := by decide
  rw [importsOther, hwords, List.any_map, List.any_eq_true]
  refine exists_congr fun w => and_congr_right fun _ => ?_
  rw [Function.comp_apply, Text.startsWith, Option.isSome_iff_exists]
  refine exists_congr fun r => ?_
  rw [afterWord?_eq_some_iff, List.append_assoc, List.singleton_append]

theorem unbroken_of_mem_otherImports : ∀ w ∈ otherImports, Unbroken w := by
  have hall : otherImports.all (fun w => w.all fun c => !isBlank c) = true := by decide
  intro w hw c hc
  simpa using List.all_eq_true.mp (List.all_eq_true.mp hall w hw) c hc

/-- **Functions and constants are told by a word and a space behind it.** -/
theorem importsOther_iff_word {s : Text} :
    importsOther s = true ↔ ∃ word r, word.lower ∈ otherImports ∧ s = word ++ ' ' :: r := by
  rw [importsOther_iff]
  constructor
  · rintro ⟨w, hw, r, hr⟩
    have hspace : ' ' ∈ s := by
      rw [← Text.mem_lower_iff (isCaseless_of_isBlank rfl), hr]
      simp
    -- the word goes up to the first blank, and so does the one in lower case
    obtain ⟨c, x, hx⟩ : ∃ c x, s.dropWhile (fun a => !isBlank a) = c :: x := by
      apply List.exists_cons_of_ne_nil
      rw [Ne, List.dropWhile_eq_nil_iff]
      exact fun hall => absurd (hall ' ' hspace) (by decide)
    have hc : isBlank c = true := by
      simpa using Text.head?_dropWhile (fun a => !isBlank a) s c (by rw [hx]; rfl)
    have hword : Unbroken (s.takeWhile fun a => !isBlank a) := fun a ha => by
      simpa using List.mem_takeWhile_imp ha
    have hs : s.takeWhile (fun a => !isBlank a) ++ c :: x = s := by
      rw [← hx, List.takeWhile_append_dropWhile]
    rw [← hs, Text.lower_append_blank hc] at hr
    have heq := hword.lower.append_inj (unbroken_of_mem_otherImports w hw) hc rfl hr
    rw [heq] at hr
    obtain ⟨rfl, -⟩ := List.cons.inj (List.append_cancel_left hr)
    exact ⟨_, x, by rwa [heq], hs.symm⟩
  · rintro ⟨word, r, hword, rfl⟩
    exact ⟨word.lower, hword, Text.lower r, Text.lower_append_blank rfl word r⟩

theorem importsOther_of_prefix {s t : Text} (h : s <+: t) (hs : importsOther s = true) :
    importsOther t = true := by
  obtain ⟨x, rfl⟩ := h
  obtain ⟨word, r, hword, rfl⟩ := importsOther_iff_word.mp hs
  exact importsOther_iff_word.mpr ⟨word, r ++ x, hword, by simp⟩

/-- A single word imports a type. -/
theorem importsOther_of_unbroken {n : Text} (hn : Unbroken n) : importsOther n = false := by
  rw [Bool.eq_false_iff]
  intro h
  obtain ⟨word, r, -, rfl⟩ := importsOther_iff_word.mp h
  have hspace := hn ' ' (by simp)
  cases hspace

/-- **A word imports a type, whatever follows it**, unless it is one of the two in some
letter case. -/
theorem importsOther_append {n : Text} (hn : Unbroken n) (hnot : n.lower ∉ otherImports) {c : Char}
    (hc : isBlank c = true) (r : Text) : importsOther (n ++ c :: r) = false := by
  rw [Bool.eq_false_iff]
  intro h
  obtain ⟨word, r', hword, hr⟩ := importsOther_iff_word.mp h
  have hbroken : Unbroken word := (unbroken_of_mem_otherImports _ hword).of_lower
  exact hnot ((hn.append_inj hbroken hc rfl hr) ▸ hword)

/-- A character that no blank and neither of the two words has, in any letter case. -/
structure Mark (d : Char) : Prop where
  caseless : isCaseless d.toNat = true
  not_blank : isBlank d = false
  not_mem : ∀ w ∈ otherImports, d ∉ w

instance (d : Char) : Decidable (Mark d) :=
  decidable_of_iff (isCaseless d.toNat = true ∧ isBlank d = false ∧ ∀ w ∈ otherImports, d ∉ w)
    ⟨fun h => ⟨h.1, h.2.1, h.2.2⟩, fun h => ⟨h.caseless, h.not_blank, h.not_mem⟩⟩

theorem mark_comma : Mark ',' := by decide +kernel

theorem mark_groupOpener : Mark groupOpener := by decide +kernel

/-- Nor have the words in any letter case. -/
theorem Mark.not_mem_word {d : Char} (hd : Mark d) {word : Text} (h : word.lower ∈ otherImports) :
    d ∉ word := fun hm => hd.not_mem _ h ((Text.mem_lower_iff hd.caseless word).mpr hm)

/-- What follows a mark makes no difference. -/
theorem importsOther_append_mark {d : Char} (hd : Mark d) (n r : Text) :
    importsOther (n ++ d :: r) = importsOther n := by
  have hspace : d ≠ ' ' := by
    rintro rfl
    cases hd.not_blank
  rw [Bool.eq_iff_iff, importsOther_iff_word, importsOther_iff_word]
  constructor
  · rintro ⟨word, x, hword, he⟩
    have hmem : d ∉ word := hd.not_mem_word hword
    rcases List.append_eq_append_iff.mp he with ⟨a, rfl, ha⟩ | ⟨a, rfl, ha⟩
    · cases a with
      | nil => exact absurd (List.cons.inj ha).1 hspace
      | cons e a =>
        obtain ⟨rfl, -⟩ := List.cons.inj ha
        exact absurd (by simp) hmem
    · cases a with
      | nil => exact absurd (List.cons.inj ha).1.symm hspace
      | cons e a =>
        obtain ⟨rfl, -⟩ := List.cons.inj ha
        exact ⟨word, a, hword, rfl⟩
  · rintro ⟨word, x, hword, rfl⟩
    exact ⟨word, x ++ d :: r, hword, by simp⟩

/-! ### Names and aliases -/

theorem partAs?_cons (c : Char) (s : Text) : partAs? (c :: s) =
    match afterAs? (c :: s) with
    | some rest => some ([], rest)
    | none => (partAs? s).map fun p => (c :: p.1, p.2) := by
  with_unfolding_all rfl

/-- A word has no `as` in it, and none begins there. -/
theorem partAs?_append (x : Text) : ∀ {n : Text}, Unbroken n →
    partAs? (n ++ x) = (partAs? x).map fun p => (n ++ p.1, p.2)
  | [], _ => by simp
  | c :: n, hn => by
    have hnone : afterAs? (c :: (n ++ x)) = none := by
      simp [afterAs?, Text.afterBlanks?, hn c List.mem_cons_self]
    have ih := partAs?_append x fun d hd => hn d (List.mem_cons_of_mem c hd)
    rw [List.cons_append, partAs?_cons, hnone]
    simp only [ih, Option.map_map]
    rfl

theorem NestedName.unbroken_text (n : NestedName) : Unbroken n.text := fun _ hc => n.not_isBlank hc

theorem NestedName.unbroken_append (n : NestedName) {s : Text} (hs : Unbroken s) :
    Unbroken (n.text ++ separator :: s) := by
  intro c hc
  rcases List.mem_append.mp hc with hc | hc
  · exact n.not_isBlank hc
  · rcases List.mem_cons.mp hc with rfl | hc
    · decide
    · exact hs c hc

namespace Written

/-- The word between a name and its alias, in any letter case; the long s is an s. -/
structure AsWord where
  first : Char
  second : Char
  isAs : (first = 'a' ∨ first = 'A') ∧ (second = 's' ∨ second = 'S' ∨ second = Char.ofNat 0x17F)

/-- The word in small letters. -/
def AsWord.small : AsWord := ⟨'a', 's', by decide⟩

theorem AsWord.isBlank_first (w : AsWord) : isBlank w.first = false := by
  rcases w.isAs.1 with h | h <;> rw [h] <;> decide

theorem AsWord.isNamespaceChar (w : AsWord) :
    isNamespaceChar w.first = true ∧ isNamespaceChar w.second = true := by
  obtain ⟨h1, h2⟩ := w.isAs
  constructor
  · rcases h1 with h | h <;> rw [h] <;> decide
  · rcases h2 with h | h | h <;> rw [h] <;> decide

/-- An alias and what stands between it and the name. -/
structure Alias where
  before : Gap
  word : AsWord
  after : Gap
  name : PlainName

namespace Alias

variable (a : Alias)

def text : Text := a.before.text ++ (a.word.first :: a.word.second :: (a.after.text ++ a.name.text))

theorem of_mem_text {c : Char} (hc : c ∈ a.text) : isNamespaceChar c = true ∨ isBlank c = true := by
  simp only [text, List.mem_append, List.mem_cons] at hc
  rcases hc with hc | rfl | rfl | hc | hc
  · exact Or.inr (a.before.blank c hc)
  · exact Or.inl a.word.isNamespaceChar.1
  · exact Or.inl a.word.isNamespaceChar.2
  · exact Or.inr (a.after.blank c hc)
  · exact Or.inl (by simp [isNamespaceChar, a.name.isName.word c hc])

theorem afterAs?_text : afterAs? a.text = some a.name.text := by
  have hfirst : ∀ (s : Text), ∀ c ∈ (a.word.first :: s).head?, isBlank c = false := by
    intro s c hc
    cases hc
    exact a.word.isBlank_first
  have hname : ∀ c ∈ a.name.text.head?, isBlank c = false := fun c hc =>
    a.name.isName.not_isBlank (List.mem_of_head? hc)
  rw [afterAs?, text, a.before.afterBlanks?_append (hfirst _)]
  simp only [if_pos a.word.isAs]
  exact a.after.afterBlanks?_append hname

/-- The `as` is found right away. -/
theorem partAs?_text : partAs? a.text = some ([], a.name.text) := by
  have hafter := a.afterAs?_text
  cases h : a.text with
  | nil => rw [h] at hafter; cases hafter
  | cons c s =>
    rw [h] at hafter
    rw [partAs?_cons, hafter]

end Alias

/-- There are no blanks around a word with an alias. -/
theorem trimmed_alias {s : Text} (hs : Unbroken s) (hne : s ≠ []) (a : Alias) :
    Text.Trimmed isBlank (s ++ a.text) := by
  constructor
  · intro c hc
    rw [List.head?_append_of_ne_nil s hne] at hc
    exact hs.trimmed.first c hc
  · intro c hc
    have hlast : (s ++ a.text).getLast? = a.name.text.getLast? := by
      refine (getLast?_of_suffix ?_ a.name.isName.ne_nil).symm
      exact ⟨s ++ (a.before.text ++ (a.word.first :: a.word.second :: a.after.text)), by
        simp [Alias.text]⟩
    rw [hlast] at hc
    exact a.name.isName.not_isBlank (List.mem_of_getLast? hc)

end Written

/-- The text is the segment, or ends with it behind a separator. -/
def EndsInSegment (n s : Text) : Prop := s = n ∨ ∃ x, s = x ++ separator :: n

theorem NestedName.endsInSegment_text (n : NestedName) : EndsInSegment n.last n.text :=
  n.text_eq.imp (·.2) fun h => ⟨_, h.2⟩

/-- So it does with something in front. -/
theorem EndsInSegment.append {n s : Text} (h : EndsInSegment n s) (x : Text) :
    EndsInSegment n (x ++ separator :: s) := by
  rcases h with rfl | ⟨y, rfl⟩
  · exact Or.inr ⟨x, rfl⟩
  · exact Or.inr ⟨x ++ separator :: y, by simp⟩

namespace Import

open Written

theorem ofName_of_segment {n s : Text} (hn : IsName n) (hs : EndsInSegment n s) :
    ofName s = ⟨n, s⟩ := by
  have hlast : s.getLast? = n.getLast? := by
    rcases hs with rfl | ⟨x, rfl⟩
    · rfl
    · exact (getLast?_of_suffix ⟨x ++ [separator], by simp⟩ hn.ne_nil).symm
  have hend : s.trimEnd (· == separator) = s := by
    refine Text.trimEnd_eq_self fun c hc => ?_
    rw [hlast] at hc
    rw [beq_eq_false_iff_ne]
    rintro rfl
    exact hn.separator_not_mem (List.mem_of_getLast? hc)
  have hafter : s.afterLast separator = n := by
    rcases hs with rfl | ⟨x, rfl⟩
    · exact hn.afterLast_self
    · exact hn.afterLast_append x
  rw [ofName, hend, hafter]

/-- Without an alias, an import is known under its last segment. -/
theorem ofItem_name {n s : Text} (hs : Unbroken s) (hn : IsName n) (hseg : EndsInSegment n s) :
    ofItem s = ⟨n, s⟩ := by
  have hnone : partAs? s = none := by
    have h := partAs?_append [] hs
    rwa [List.append_nil] at h
  rw [ofItem, hs.trimBlank_eq, hnone]
  exact ofName_of_segment hn hseg

/-- With an alias, an import is known under it. -/
theorem ofItem_alias {s : Text} (hs : Unbroken s) (hne : s ≠ []) (a : Alias) :
    ofItem (s ++ a.text) = ⟨a.name.text, s⟩ := by
  have htrim : (s ++ a.text).trimBlank = s ++ a.text := (trimmed_alias hs hne a).trim_eq
  rw [ofItem, htrim, partAs?_append _ hs, a.partAs?_text]
  simp only [Option.map_some, List.append_nil, hs.trimBlank_eq, a.name.isName.trimBlank_eq]

end Import

theorem Import.ofItem_trimBlank (s : Text) : ofItem s.trimBlank = ofItem s := by
  have htrim : s.trimBlank.trimBlank = s.trimBlank := (Text.trimmed_trim isBlank s).trim_eq
  rw [ofItem, htrim]
  rfl

/-! ### Bodies without a group -/

/-- The pieces between the commas that are not blank, without the blanks around them. -/
def listed (s : Text) : List Text :=
  ((Text.cutAll ',' s).map Text.trimBlank).filter (· ≠ [])

theorem listed_trimBlank (s : Text) : listed s.trimBlank = listed s :=
  congrArg (List.filter (· ≠ [])) (Text.map_trim_cutAll rfl s)

/-- What is neither blank nor a comma is listed. -/
theorem listed_ne_nil {s : Text} {c : Char} (hc : c ∈ s) (hblank : isBlank c = false)
    (hcomma : c ≠ ',') : listed s ≠ [] := by
  rw [← Text.join_cutAll ',' s] at hc
  obtain ⟨piece, hpiece, hmem⟩ := (Text.mem_join hc).resolve_left hcomma
  have hne : piece.trimBlank ≠ [] := fun h => by
    rw [Text.trim_eq_nil_iff.mp h c hmem] at hblank
    cases hblank
  exact List.ne_nil_of_mem (List.mem_filter.mpr
    ⟨List.mem_map_of_mem hpiece, decide_eq_true hne⟩)

/-- A body without a group lists its imports. -/
theorem importsOf_list {s : Text} (hgroup : groupOpener ∉ s) :
    importsOf s = if importsOther s.trimBlank then [] else (listed s).map Import.ofItem := by
  have hgroup' : groupOpener ∉ s.trimBlank := fun h => by
    obtain ⟨a, b, hs, -, -⟩ := Text.exists_eq_trim isBlank s
    rw [hs] at hgroup
    exact hgroup (List.mem_append_right a (List.mem_append_left b h))
  have hitems : (itemsOf s.trimBlank).map Import.ofItem = (listed s).map Import.ofItem := by
    have hitem : Import.ofItem ∘ Text.trimBlank = Import.ofItem := funext Import.ofItem_trimBlank
    rw [itemsOf, Text.after?_eq_none hgroup', ← listed_trimBlank, listed, List.filter_map,
      List.map_map, hitem]
    rfl
  simp only [importsOf, hitems]

namespace Written

/-- An imported type, with an alias or without. -/
structure ImportItem where
  name : NestedName
  renamed : Option Alias
  isType : name.text.lower ∉ otherImports

namespace ImportItem

variable (i : ImportItem)

def text : Text := i.name.text ++ i.renamed.elim [] Alias.text

/-- The line that imports it, up to the semicolon. -/
def line : Text := "use".toList ++ (Gap.space.text ++ (i.text ++ [';']))

/-- The import under its alias, or under its last segment. -/
def entry : Import := ⟨i.renamed.elim i.name.last (·.name.text), i.name.text⟩

/-- It is made of the characters of names and of blanks. -/
theorem of_mem_text {c : Char} (hc : c ∈ i.text) : isNamespaceChar c = true ∨ isBlank c = true := by
  rcases List.mem_append.mp hc with hc | hc
  · exact Or.inl (i.name.isNamespaceChar_of_mem hc)
  · cases ha : i.renamed with
    | none => rw [ha] at hc; cases hc
    | some a => rw [ha] at hc; exact a.of_mem_text hc

theorem not_mem_text {c : Char} (hname : isNamespaceChar c = false) (hblank : isBlank c = false) :
    c ∉ i.text := fun hc => by
  rcases i.of_mem_text hc with h | h
  · rw [hname] at h; cases h
  · rw [hblank] at h; cases h

theorem text_ne_nil : i.text ≠ [] := List.append_ne_nil_of_left_ne_nil i.name.text_ne_nil _

theorem head?_text (x : Text) : ∀ c ∈ (i.text ++ x).head?, isBlank c = false := by
  rw [text, List.append_assoc]
  exact i.name.head?_append _

theorem text_of_none (h : i.renamed = none) : i.text = i.name.text := by
  rw [text, h]
  exact List.append_nil _

theorem text_of_some {a : Alias} (h : i.renamed = some a) : i.text = i.name.text ++ a.text := by
  rw [text, h]
  rfl

theorem trimBlank_text : i.text.trimBlank = i.text := by
  cases h : i.renamed with
  | none => rw [i.text_of_none h, i.name.trimBlank_text]
  | some a =>
    rw [i.text_of_some h]
    exact (trimmed_alias i.name.unbroken_text i.name.text_ne_nil a).trim_eq

/-- It imports neither a function nor a constant, also with more in the list behind it. -/
theorem importsOther_text_append {r : Text} (hr : ∀ c ∈ r.head?, isBlank c = true ∨ Mark c) :
    importsOther (i.text ++ r) = false := by
  cases h : i.renamed with
  | none =>
    rw [i.text_of_none h]
    cases r with
    | nil =>
      rw [List.append_nil]
      exact importsOther_of_unbroken i.name.unbroken_text
    | cons c r =>
      rcases hr c rfl with hblank | hmark
      · exact importsOther_append i.name.unbroken_text i.isType hblank r
      · rw [importsOther_append_mark hmark]
        exact importsOther_of_unbroken i.name.unbroken_text
  | some a =>
    obtain ⟨c, cs, hc⟩ := List.exists_cons_of_ne_nil a.before.ne_nil
    have hblank := a.before.blank c (by rw [hc]; exact List.mem_cons_self)
    rw [i.text_of_some h, Alias.text, hc, List.append_assoc]
    exact importsOther_append i.name.unbroken_text i.isType hblank _

theorem importsOther_text : importsOther i.text = false := by
  have h := i.importsOther_text_append (r := []) (by simp)
  rwa [List.append_nil] at h

/-- What is imported is known as the import says, also with more in front of the name. -/
theorem ofItem_append {s : Text} (hs : Unbroken s) (hseg : EndsInSegment i.name.last s) :
    Import.ofItem (s ++ i.renamed.elim [] Alias.text) =
      ⟨i.renamed.elim i.name.last (·.name.text), s⟩ := by
  cases i.renamed with
  | none =>
    rw [Option.elim_none, List.append_nil]
    exact Import.ofItem_name hs i.name.isName_last hseg
  | some a =>
    have hne : s ≠ [] := by
      rcases hseg with rfl | ⟨x, rfl⟩
      · exact i.name.isName_last.ne_nil
      · simp
    exact Import.ofItem_alias hs hne a

theorem ofItem_text : Import.ofItem i.text = i.entry :=
  i.ofItem_append i.name.unbroken_text i.name.endsInSegment_text

/-- **An imported type says what is written in it.** -/
theorem importsOf_text : importsOf i.text = [i.entry] := by
  have hgroup : groupOpener ∉ i.text := i.not_mem_text (by decide) (by decide)
  have hcomma : ',' ∉ i.text := i.not_mem_text (by decide) (by decide)
  have hlisted : listed i.text = [i.text] := by
    rw [listed, Text.cutAll_of_not_mem hcomma, List.map_singleton, i.trimBlank_text,
      List.filter_cons_of_pos (by simpa using i.text_ne_nil), List.filter_nil]
  rw [importsOf_list hgroup, i.trimBlank_text, if_neg (by simp [i.importsOther_text]), hlisted,
    List.map_singleton, i.ofItem_text]

/-! ### The line of an import -/

theorem isName_use : IsName "use".toList := by decide

theorem line_append (x : Text) :
    i.line ++ x = "use".toList ++ (Gap.space.text ++ (i.text ++ (';' :: x))) := by
  have assoc : ∀ w g b : Text, w ++ (g ++ (b ++ [';'])) ++ x = w ++ (g ++ (b ++ (';' :: x))) := by
    intro w g b
    simp only [List.append_assoc, List.singleton_append]
  exact assoc _ _ _

theorem line_ne_nil : i.line ≠ [] := List.append_ne_nil_of_left_ne_nil isName_use.ne_nil _

/-- The line begins with no other word. -/
theorem beginsWith_line {words : List Text} (hwords : ∀ w ∈ words, IsName w)
    (hnot : "use".toList ∉ words) (x : Text) : beginsWith words (i.line ++ x) = false := by
  rw [line_append]
  exact beginsWith_name hwords isName_use (Gap.space.head?_append _) hnot

/-- The line has no other characters than its import, but for a few. -/
theorem not_mem_line {c : Char} (htext : c ∉ i.text) (hword : isWordChar c = false)
    (hother : c ≠ ' ' ∧ c ≠ ';') : c ∉ i.line := by
  have hspace : c ∉ Gap.space.text := fun h => hother.1 (List.mem_singleton.mp h)
  have hend : c ∉ [';'] := fun h => hother.2 (List.mem_singleton.mp h)
  exact List.not_mem_append (isName_use.not_mem hword)
    (List.not_mem_append hspace (List.not_mem_append htext hend))

/-- **An import line is read** up to its semicolon, whatever follows. -/
theorem readImports_line (x : Text) : readImports (i.line ++ x) = some (i.text, x) := by
  have hwords : PrefixFree ["use".toList] := by decide
  have hall : ∀ c ∈ i.text, (c != ';') = true := fun c hc => by
    rw [bne_iff_ne]
    rintro rfl
    exact i.not_mem_text (by decide) (by decide) hc
  obtain ⟨c, cs, hc⟩ := List.exists_cons_of_ne_nil i.text_ne_nil
  rw [readImports, line_append, isName_use.dropWhile_isBlank, afterSpacedWord?_append hwords
    (List.mem_singleton_self _) Gap.space (i.head?_text _), Option.bind_some,
    List.takeWhile_append_of_pos hall, List.dropWhile_append_of_pos hall, hc]
  simp

end ImportItem
end Written
end DocTypes
